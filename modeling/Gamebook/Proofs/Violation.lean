import Gamebook.Proofs.Goto
import Gamebook.Proofs.Search
import Gamebook.Story.Validation
import Mathlib.Data.List.Count
import Mathlib.Data.List.Nodup

/-!
# Violations

`Violation` says, without reference to the way in which a story is validated, what is wrong with
it: at which site, and as which issue that has to be reported.  A site is an id, an entry of the
nodes, a choice of an entry or the position of a goto in a choice.

The issues of a story other than cycles are the violations, each reported once
(`issues_correspondence`).  The proof goes through the lists that the issues are put together from;
`Reports` says of each of them which violations it stands for.
-/

namespace Gamebook

/-- What an issue is about: entries, choices and members of effects are numbered from zero. -/
inductive Site where
  | id (id : String)
  | entry (number : Nat)
  | start
  | choice (entry number : Nat)
  | goto (entry number : Nat) (position : List Nat)

namespace Choice

/-- A goto stands at a position of the effects of a choice. -/
def HasGoto (c : Choice) (position : List Nat) (target : String) : Prop :=
  Effect.part? position (.oneOf c.effects) = some (.goto target)

theorem mem_gotos_iff {c : Choice} {target : String} :
    target ∈ c.gotos ↔ ∃ position, c.HasGoto position target := by
  show target ∈ Effect.gotos (.oneOf c.effects) ↔ _
  rw [← Effect.map_snd_gotoSites, List.mem_map]
  simp only [Prod.exists, Effect.mem_gotoSites_iff, exists_eq_right]
  rfl

theorem gotos_eq_nil_iff {c : Choice} :
    c.gotos = [] ↔ ∀ position target, ¬ c.HasGoto position target := by
  rw [List.eq_nil_iff_forall_not_mem]
  simp only [mem_gotos_iff, not_exists]
  exact forall_comm

end Choice

namespace Story

/-- What is wrong with a choice of a node, where `earlier` are the ids of the choices before it: the
site, and the issue for it. -/
inductive ChoiceViolation (s : Story) (i j : Nat) (key : String) (earlier : List String)
    (c : Choice) : Site × Issue → Prop where
  /-- An earlier choice has the same id. -/
  | sameId (h : c.id ∈ earlier) :
    ChoiceViolation s i j key earlier c (.choice i j, .duplicateChoice key c.id)
  /-- The target is empty, and there is no goto at any position. -/
  | noTarget (empty : c.target = "") (gotos : ∀ position target, ¬ c.HasGoto position target) :
    ChoiceViolation s i j key earlier c (.choice i j, .noTarget key c.id)
  /-- The target is not empty and names no node. -/
  | missingTarget (nonempty : c.target ≠ "")
      (missing : Path.resolve c.target (Path.group key) ∉ s.nodes.keys) :
    ChoiceViolation s i j key earlier c (.choice i j, .missingTarget key c.id c.target)
  /-- The target of a goto names no node. -/
  | missingGoto {position : List Nat} {target : String} (goto : c.HasGoto position target)
      (missing : Path.resolve target (Path.group key) ∉ s.nodes.keys) :
    ChoiceViolation s i j key earlier c (.goto i j position, .missingGoto key c.id target)

/-- What is wrong with a story apart from cycles, where a document listed some keys repeatedly: the
site, and the issue for it. -/
inductive Violation (s : Story) (listed : List String) : Site × Issue → Prop where
  /-- A document listed a key repeatedly. -/
  | listedTwice {id : String} (h : id ∈ listed) : Violation s listed (.id id, .duplicateNode id)
  /-- At least two entries carry an id. -/
  | carriedTwice {id : String} (h : 2 ≤ (s.nodes.entries.map fun e => e.2.id).count id) :
    Violation s listed (.id id, .duplicateNode id)
  /-- An entry carries another id than its key, and no earlier entry carries that id. -/
  | mismatch {i : Nat} {key : String} {node : Node} (entry : s.nodes.entries[i]? = some (key, node))
      (ne : node.id ≠ key) (first : node.id ∉ (s.nodes.entries.take i).map fun e => e.2.id) :
    Violation s listed (.entry i, .keyMismatch key node.id)
  /-- The start is no key of the nodes. -/
  | noStart (h : s.start ∉ s.nodes.keys) : Violation s listed (.start, .missingStart s.start)
  /-- Something is wrong with a choice. -/
  | choice {i j : Nat} {key : String} {node : Node} {c : Choice} {v : Site × Issue}
      (entry : s.nodes.entries[i]? = some (key, node)) (choice : node.choices[j]? = some c)
      (h : s.ChoiceViolation i j key ((node.choices.take j).map Choice.id) c v) :
    Violation s listed v

end Story

/-! ## Lists of issues and what they report -/

/-- A list of issues reports the pairs of sites and issues with a property, each once. -/
def Reports (issues : List Issue) (P : Site × Issue → Prop) : Prop :=
  ∃ pairs : List (Site × Issue), pairs.Nodup ∧ (∀ v, v ∈ pairs ↔ P v) ∧
    issues = pairs.map Prod.snd

namespace Reports

variable {issues issues' : List Issue} {P Q : Site × Issue → Prop}

theorem congr (h : Reports issues P) (hPQ : ∀ v, P v ↔ Q v) : Reports issues Q := by
  obtain ⟨pairs, hn, hmem, heq⟩ := h
  exact ⟨pairs, hn, fun v => (hmem v).trans (hPQ v), heq⟩

theorem nil : Reports [] fun _ => False :=
  ⟨[], .nil, by simp, rfl⟩

theorem single (v : Site × Issue) : Reports [v.2] (· = v) :=
  ⟨[v], by simp, by simp, rfl⟩

theorem append (h : Reports issues P) (h' : Reports issues' Q) (disjoint : ∀ v, P v → ¬ Q v) :
    Reports (issues ++ issues') fun v => P v ∨ Q v := by
  obtain ⟨pairs, hn, hmem, rfl⟩ := h
  obtain ⟨pairs', hn', hmem', rfl⟩ := h'
  refine ⟨pairs ++ pairs', ?_, fun v => ?_, (List.map_append).symm⟩
  · rw [List.nodup_append]
    refine ⟨hn, hn', fun v hv w hw hvw => ?_⟩
    subst hvw
    exact disjoint v ((hmem v).1 hv) ((hmem' v).1 hw)
  · rw [List.mem_append, hmem, hmem']

theorem cons {v : Site × Issue} (h : Reports issues P) (hv : ¬ P v) :
    Reports (v.2 :: issues) fun w => w = v ∨ P w :=
  (single v).append h fun _ hw => hw ▸ hv

/-- An issue that is there under a condition. -/
theorem ite {p : Prop} [Decidable p] (v : Site × Issue) :
    Reports (if p then [v.2] else []) fun w => p ∧ w = v := by
  split
  · next h => exact (single v).congr fun w => by simp [h]
  · next h => exact nil.congr fun w => by simp [h]

/-- Issues for the items of a list, each with a site of its own. -/
theorem map {α : Type} {as : List α} (hn : as.Nodup) {f : α → Site × Issue}
    (hf : Function.Injective f) : Reports (as.map fun a => (f a).2) fun v => ∃ a ∈ as, v = f a := by
  refine ⟨as.map f, hn.map hf, fun v => ?_, ?_⟩
  · rw [List.mem_map]
    simp only [eq_comm]
  · rw [List.map_map]
    rfl

/-- Issues for the items of a list one after the other, where different items have different
sites. -/
theorem flatMap {α : Type} {f : α → List Issue} {P : Nat → α → Site × Issue → Prop}
    (h : ∀ i a, Reports (f a) (P i a))
    (disjoint : ∀ i j a b v, P i a v → P j b v → i = j) (as : List α) (i : Nat) :
    Reports (as.flatMap f) fun v => ∃ k a, as[k]? = some a ∧ P (i + k) a v := by
  induction as generalizing i with
  | nil => exact nil.congr (by simp)
  | cons a as ih =>
    rw [List.flatMap_cons]
    refine ((h i a).append (ih (i + 1)) ?_).congr fun v => ?_
    · rintro v hv ⟨k, b, -, hv'⟩
      have := disjoint _ _ _ _ _ hv hv'
      omega
    · rw [exists_member_cons_iff]
      simp only [Nat.add_zero, Nat.add_assoc, Nat.add_comm 1]

theorem eq_nil_iff (h : Reports issues P) : issues = [] ↔ ∀ v, ¬ P v := by
  obtain ⟨pairs, -, hmem, rfl⟩ := h
  rw [List.map_eq_nil_iff, List.eq_nil_iff_forall_not_mem]
  simp only [hmem]

end Reports

/-! ## The issues of choices -/

namespace Story

variable {s : Story} {i j : Nat} {key : String} {earlier earlier' : List String} {c : Choice}
  {v : Site × Issue}

theorem resolves_iff {group reference : String} :
    s.resolves group reference = true ↔ Path.resolve reference group ∈ s.nodes.keys := by
  unfold resolves
  rw [Table.contains_iff]

theorem ChoiceViolation.mono (h : earlier ⊆ earlier') :
    s.ChoiceViolation i j key earlier c v → s.ChoiceViolation i j key earlier' c v
  | .sameId hid => .sameId (h hid)
  | .noTarget empty gotos => .noTarget empty gotos
  | .missingTarget nonempty missing => .missingTarget nonempty missing
  | .missingGoto goto missing => .missingGoto goto missing

/-- The order of the earlier choices does not matter. -/
theorem ChoiceViolation.middle_iff {id : String} :
    s.ChoiceViolation i j key (earlier ++ id :: earlier') c v ↔
      s.ChoiceViolation i j key (id :: earlier ++ earlier') c v :=
  ⟨.mono List.perm_middle.subset, .mono List.perm_middle.symm.subset⟩

theorem ChoiceViolation.site (h : s.ChoiceViolation i j key earlier c v) :
    v.1 = .choice i j ∨ ∃ position, v.1 = .goto i j position := by
  cases h with
  | sameId | noTarget | missingTarget => exact .inl rfl
  | missingGoto => exact .inr ⟨_, rfl⟩

/-- Violations at different choices have different sites. -/
theorem ChoiceViolation.site_inj {i' j' : Nat} {key' : String} {c' : Choice}
    (h : s.ChoiceViolation i j key earlier c v)
    (h' : s.ChoiceViolation i' j' key' earlier' c' v) : i = i' ∧ j = j' := by
  rcases h.site with h | ⟨position, h⟩ <;> rcases h'.site with h' | ⟨position', h'⟩ <;>
    rw [h] at h' <;> cases h' <;> exact ⟨rfl, rfl⟩

theorem reports_targetIssues (s : Story) (i j : Nat) (key : String) (c : Choice) :
    Reports (s.targetIssues key c) fun v =>
      ((c.target = "" ∧ ∀ position target, ¬ c.HasGoto position target) ∧
        v = (.choice i j, .noTarget key c.id)) ∨
      ((c.target ≠ "" ∧ Path.resolve c.target (Path.group key) ∉ s.nodes.keys) ∧
        v = (.choice i j, .missingTarget key c.id c.target)) := by
  have split : s.targetIssues key c =
      (if c.target = "" ∧ c.gotos = [] then [.noTarget key c.id] else []) ++
      (if c.target ≠ "" ∧ Path.resolve c.target (Path.group key) ∉ s.nodes.keys
        then [.missingTarget key c.id c.target] else []) := by
    unfold targetIssues
    by_cases he : c.target = "" <;> simp [he, resolves_iff]
  rw [split]
  refine ((Reports.ite (.choice i j, .noTarget key c.id)).append
    (Reports.ite (.choice i j, .missingTarget key c.id c.target)) ?_).congr fun v => ?_
  · rintro v ⟨-, rfl⟩ ⟨-, h⟩
    cases h
  · rw [Choice.gotos_eq_nil_iff]

theorem reports_gotoIssues (s : Story) (i j : Nat) (key : String) (c : Choice) :
    Reports (s.gotoIssues key c) fun v =>
      ∃ position target, c.HasGoto position target ∧
        Path.resolve target (Path.group key) ∉ s.nodes.keys ∧
        v = (.goto i j position, .missingGoto key c.id target) := by
  let sites := (Effect.gotoSites (.oneOf c.effects)).filter fun site =>
    !s.resolves (Path.group key) site.2
  let issue (site : List Nat × String) : Site × Issue :=
    (.goto i j site.1, .missingGoto key c.id site.2)
  have hissue : Function.Injective issue := by
    rintro ⟨p, t⟩ ⟨p', t'⟩ h
    simp only [issue, Prod.mk.injEq, Site.goto.injEq, Issue.missingGoto.injEq] at h
    rw [h.1.2.2, h.2.2.2]
  have hsites : s.gotoIssues key c = sites.map fun site => (issue site).2 := by
    have hgotos : c.gotos = (Effect.gotoSites (.oneOf c.effects)).map Prod.snd :=
      (Effect.map_snd_gotoSites (.oneOf c.effects)).symm
    unfold gotoIssues
    rw [hgotos, List.filter_map, List.map_map]
    rfl
  rw [hsites]
  refine (Reports.map ((Effect.nodup_gotoSites _).filter _) hissue).congr fun v => ?_
  unfold Choice.HasGoto
  simp [issue, Effect.mem_gotoSites_iff, ← resolves_iff, and_assoc]

/-- The issues of one choice, which the choices of a node contribute one after the other. -/
theorem reports_choice (s : Story) (i j : Nat) (key : String) (earlier : List String)
    (c : Choice) :
    Reports ((if c.id ∈ earlier then [.duplicateChoice key c.id] else [])
        ++ s.targetIssues key c ++ s.gotoIssues key c)
      (s.ChoiceViolation i j key earlier c) := by
  refine (((Reports.ite (.choice i j, .duplicateChoice key c.id)).append
    (reports_targetIssues s i j key c) ?_).append
    (reports_gotoIssues s i j key c) ?_).congr fun v => ?_
  · rintro v ⟨-, rfl⟩ (⟨-, h⟩ | ⟨-, h⟩) <;> cases h
  · rintro v hv ⟨position, target, -, -, rfl⟩
    rcases hv with ⟨-, h⟩ | ⟨-, h⟩ | ⟨-, h⟩ <;> cases h
  · constructor
    · rintro ((⟨h, rfl⟩ | ⟨⟨he, hg⟩, rfl⟩ | ⟨⟨hn, hm⟩, rfl⟩) | ⟨position, target, hg, hm, rfl⟩)
      · exact .sameId h
      · exact .noTarget he hg
      · exact .missingTarget hn hm
      · exact .missingGoto hg hm
    · intro h
      cases h with
      | sameId h => exact .inl (.inl ⟨h, rfl⟩)
      | noTarget he hg => exact .inl (.inr (.inl ⟨⟨he, hg⟩, rfl⟩))
      | missingTarget hn hm => exact .inl (.inr (.inr ⟨⟨hn, hm⟩, rfl⟩))
      | missingGoto hg hm => exact .inr ⟨_, _, hg, hm, rfl⟩

theorem reports_choiceIssues (s : Story) (i : Nat) (key : String) (cs : List Choice) :
    ∀ (seen : List String) (j : Nat), Reports (s.choiceIssues key seen cs) fun v =>
      ∃ k c, cs[k]? = some c ∧
        s.ChoiceViolation i (j + k) key (seen ++ (cs.take k).map Choice.id) c v := by
  induction cs with
  | nil => exact fun seen j => Reports.nil.congr (by simp)
  | cons c cs ih =>
    intro seen j
    rw [choiceIssues]
    refine ((reports_choice s i j key seen c).append (ih (c.id :: seen) (j + 1)) ?_).congr
      fun v => ?_
    · rintro v hv ⟨k, c', -, hv'⟩
      have := (hv.site_inj hv').2
      omega
    · rw [exists_member_cons_iff]
      simp only [List.take_zero, List.take_succ_cons, List.map_nil, List.map_cons, List.append_nil,
        ChoiceViolation.middle_iff, Nat.add_zero, Nat.add_assoc, Nat.add_comm 1]

/-! ## The issues of ids -/

/-- An id needs an issue as a repeated one, where `seen` and then `ids` are carried in order and the
ids in `reported` need none. -/
def Repeated (seen reported ids : List String) (id : String) : Prop :=
  id ∉ reported ∧ 2 ≤ (seen ++ ids).count id

/-- The entry with a number carries another id than its key, and neither `seen` nor an earlier entry
has that id. -/
def Mismatched (seen : List String) (es : List (String × Node)) (k : Nat) (e : String × Node) :
    Prop :=
  es[k]? = some e ∧ e.2.id ≠ e.1 ∧ e.2.id ∉ seen ++ (es.take k).map fun e => e.2.id

variable {seen reported ids : List String} {a id : String} {es : List (String × Node)}
  {e e' : String × Node} {k : Nat}

theorem not_repeated_nil (h : seen.Nodup) : ¬ Repeated seen reported [] id := by
  rintro ⟨-, hc⟩
  have hle := List.nodup_iff_count_le_one.1 h id
  rw [List.append_nil] at hc
  omega

theorem repeated_cons_seen_iff (h : a ∈ seen) : Repeated seen reported (a :: ids) id ↔
    (a ∉ reported ∧ id = a) ∨ Repeated seen (a :: reported) ids id := by
  unfold Repeated
  by_cases hid : id = a
  · subst hid
    have hpos := List.count_pos_iff.2 h
    have htwice : 2 ≤ (seen ++ id :: ids).count id := by
      rw [List.count_append, List.count_cons_self]
      omega
    constructor
    · exact fun ⟨hr, _⟩ => .inl ⟨hr, rfl⟩
    · rintro (⟨hr, -⟩ | ⟨hr, -⟩)
      · exact ⟨hr, htwice⟩
      · exact absurd List.mem_cons_self hr
  · simp [hid, List.count_append, Ne.symm hid]

theorem repeated_cons_iff :
    Repeated seen reported (a :: ids) id ↔ Repeated (a :: seen) reported ids id := by
  unfold Repeated
  rw [List.perm_middle.count_eq, List.cons_append]

theorem repeated_reported_iff (h : a ∈ reported) :
    Repeated seen (a :: reported) ids id ↔ Repeated seen reported ids id := by
  unfold Repeated
  rw [List.mem_cons, or_iff_right_of_imp fun hid => hid ▸ h]

theorem mismatched_zero_iff :
    Mismatched seen (e :: es) 0 e' ↔ e = e' ∧ e.2.id ≠ e.1 ∧ e.2.id ∉ seen := by
  unfold Mismatched
  rw [List.getElem?_cons_zero, Option.some_inj, List.take_zero, List.map_nil, List.append_nil]
  exact and_congr_right fun h => h ▸ Iff.rfl

theorem mismatched_succ_iff :
    Mismatched seen (e :: es) (k + 1) e' ↔ Mismatched (e.2.id :: seen) es k e' := by
  unfold Mismatched
  rw [List.getElem?_cons_succ, List.take_succ_cons, List.map_cons, List.perm_middle.mem_iff,
    List.cons_append]

theorem mismatched_seen_iff (h : a ∈ seen) :
    Mismatched (a :: seen) es k e ↔ Mismatched seen es k e := by
  unfold Mismatched
  rw [List.cons_append, List.mem_cons, or_iff_right_of_imp fun he => ?_]
  exact List.mem_append_left _ (he ▸ h)

/-- What is wrong with the ids of some entries, the first of which has number `i`, where `seen` are
the ids of the entries before them and the ids in `reported` need no issue. -/
inductive EntryViolation (seen reported : List String) (i : Nat) (es : List (String × Node)) :
    Site × Issue → Prop where
  | carriedTwice {id : String} (h : Repeated seen reported (es.map fun e => e.2.id) id) :
    EntryViolation seen reported i es (.id id, .duplicateNode id)
  | mismatch {n k : Nat} {e : String × Node} (number : n = i + k) (h : Mismatched seen es k e) :
    EntryViolation seen reported i es (.entry n, .keyMismatch e.1 e.2.id)

theorem EntryViolation.not_nil (h : seen.Nodup) : ¬ EntryViolation seen reported i [] v := by
  rintro (hid | ⟨-, hm⟩)
  · exact not_repeated_nil h hid
  · cases hm.1

theorem EntryViolation.le_number {n : Nat} (h : EntryViolation seen reported i es v)
    (hn : v.1 = .entry n) : i ≤ n := by
  cases h with
  | carriedTwice => cases hn
  | mismatch number =>
    cases hn
    omega

theorem EntryViolation.reported_cons_iff (h : a ∈ reported) :
    EntryViolation seen (a :: reported) i es v ↔ EntryViolation seen reported i es v := by
  constructor
  · rintro (hid | ⟨number, hm⟩)
    · exact .carriedTwice ((repeated_reported_iff h).1 hid)
    · exact .mismatch number hm
  · rintro (hid | ⟨number, hm⟩)
    · exact .carriedTwice ((repeated_reported_iff h).2 hid)
    · exact .mismatch number hm

/-- A first entry whose id has been seen is wrong only as one that repeats the id. -/
theorem EntryViolation.cons_seen_iff (h : e.2.id ∈ seen) :
    EntryViolation seen reported i (e :: es) v ↔
      (e.2.id ∉ reported ∧ v = (.id e.2.id, .duplicateNode e.2.id)) ∨
        EntryViolation seen (e.2.id :: reported) (i + 1) es v := by
  constructor
  · rintro (hid | @⟨n, k, e', number, hm⟩)
    · rcases (repeated_cons_seen_iff h).1 hid with ⟨hr, rfl⟩ | hid
      · exact .inl ⟨hr, rfl⟩
      · exact .inr (.carriedTwice hid)
    · cases k with
      | zero => exact absurd h (mismatched_zero_iff.1 hm).2.2
      | succ k =>
        have hm := (mismatched_seen_iff h).1 (mismatched_succ_iff.1 hm)
        exact .inr (.mismatch (by omega) hm)
  · rintro (⟨hr, rfl⟩ | hid | ⟨number, hm⟩)
    · exact .carriedTwice ((repeated_cons_seen_iff h).2 (.inl ⟨hr, rfl⟩))
    · exact .carriedTwice ((repeated_cons_seen_iff h).2 (.inr hid))
    · have hm := mismatched_succ_iff.2 ((mismatched_seen_iff h).2 hm)
      exact .mismatch (by omega) hm

/-- A first entry whose id has not been seen is wrong only as one that carries another id than its
key. -/
theorem EntryViolation.cons_unseen_iff (h : e.2.id ∉ seen) :
    EntryViolation seen reported i (e :: es) v ↔
      (e.2.id ≠ e.1 ∧ v = (.entry i, .keyMismatch e.1 e.2.id)) ∨
        EntryViolation (e.2.id :: seen) reported (i + 1) es v := by
  constructor
  · rintro (hid | @⟨n, k, e', number, hm⟩)
    · exact .inr (.carriedTwice (repeated_cons_iff.1 hid))
    · cases k with
      | zero =>
        obtain ⟨rfl, ne, -⟩ := mismatched_zero_iff.1 hm
        exact .inl ⟨ne, by rw [number, Nat.add_zero]⟩
      | succ k => exact .inr (.mismatch (by omega) (mismatched_succ_iff.1 hm))
  · rintro (⟨ne, rfl⟩ | hid | ⟨number, hm⟩)
    · exact .mismatch (Nat.add_zero i).symm (mismatched_zero_iff.2 ⟨rfl, ne, h⟩)
    · exact .carriedTwice (repeated_cons_iff.2 hid)
    · exact .mismatch (by omega) (mismatched_succ_iff.2 hm)

theorem reports_nodeIssues (es : List (String × Node)) :
    ∀ (seen reported : List String) (i : Nat), seen.Nodup →
      Reports (nodeIssues seen reported es) (EntryViolation seen reported i es) := by
  induction es with
  | nil =>
    intro seen reported i hn
    exact Reports.nil.congr fun v => iff_of_false not_false (EntryViolation.not_nil hn)
  | cons e es ih =>
    intro seen reported i hn
    rw [nodeIssues]
    split
    · next hs =>
      -- an id that has been seen before is reported once
      split
      · next hr =>
        refine (ih seen reported (i + 1) hn).congr fun v => ?_
        rw [EntryViolation.cons_seen_iff hs, EntryViolation.reported_cons_iff hr]
        simp [hr]
      · next hr =>
        have tail := ih seen (e.2.id :: reported) (i + 1) hn
        refine (tail.cons (v := (.id e.2.id, .duplicateNode e.2.id)) ?_).congr fun v => ?_
        · rintro (⟨hr, -⟩ | -)
          exact hr List.mem_cons_self
        · rw [EntryViolation.cons_seen_iff hs]
          simp [hr]
    · next hs =>
      have tail := ih (e.2.id :: seen) reported (i + 1) (List.nodup_cons.2 ⟨hs, hn⟩)
      split
      · next hk =>
        refine tail.congr fun v => ?_
        rw [EntryViolation.cons_unseen_iff hs]
        simp [hk]
      · next hk =>
        refine (tail.cons (v := (.entry i, .keyMismatch e.1 e.2.id)) ?_).congr fun v => ?_
        · intro h
          have := h.le_number rfl
          omega
        · rw [EntryViolation.cons_unseen_iff hs]
          simp [hk]

/-! ## All issues -/

theorem reports_startIssues (s : Story) :
    Reports s.startIssues fun v => s.start ∉ s.nodes.keys ∧ v = (.start, .missingStart s.start) := by
  have h : s.startIssues = if s.start ∉ s.nodes.keys then [.missingStart s.start] else [] := by
    unfold startIssues
    by_cases hs : s.start ∈ s.nodes.keys <;> simp [hs, Table.contains_iff]
  rw [h]
  exact Reports.ite (.start, .missingStart s.start)

theorem reports_entries (s : Story) :
    Reports (s.nodes.entries.flatMap fun e => s.choiceIssues e.1 [] e.2.choices) fun v =>
      ∃ i e, s.nodes.entries[i]? = some e ∧ ∃ j c, e.2.choices[j]? = some c ∧
        s.ChoiceViolation i j e.1 ((e.2.choices.take j).map Choice.id) c v := by
  refine (Reports.flatMap (P := fun i e v => ∃ j c, e.2.choices[j]? = some c ∧
    s.ChoiceViolation i j e.1 ((e.2.choices.take j).map Choice.id) c v) ?_ ?_ _ 0).congr fun v => ?_
  · intro i e
    simpa using reports_choiceIssues s i e.1 e.2.choices [] 0
  · rintro i i' e e' v ⟨j, c, -, hv⟩ ⟨j', c', -, hv'⟩
    exact (hv.site_inj hv').1
  · simp only [Nat.zero_add]

theorem reports_ids (s : Story) (listed : List String) :
    Reports ((distinct listed).map .duplicateNode ++ nodeIssues [] (distinct listed) s.nodes.entries)
      fun v => (∃ id ∈ distinct listed, v = (.id id, .duplicateNode id)) ∨
        EntryViolation [] (distinct listed) 0 s.nodes.entries v := by
  have inj : Function.Injective fun id : String => (Site.id id, Issue.duplicateNode id) := by
    intro id id' h
    simpa using h
  refine (Reports.map (nodup_distinct listed) inj).append
    (reports_nodeIssues s.nodes.entries [] (distinct listed) 0 .nil) ?_
  rintro _ ⟨id, hid, rfl⟩ (⟨hr, -⟩ | _)
  exact hr hid

/-- The issues other than cycles report the violations. -/
theorem reports_staticIssues (s : Story) (listed : List String) :
    Reports (s.staticIssues listed) (s.Violation listed) := by
  unfold staticIssues
  refine (((reports_ids s listed).append (reports_startIssues s) ?_).append
    (reports_entries s) ?_).congr fun v => ?_
  · -- the start is neither an id nor an entry
    rintro v hv ⟨-, rfl⟩
    rcases hv with ⟨id, -, h⟩ | h <;> cases h
  · -- nothing of this is a choice or a goto
    rintro v hv ⟨i, e, -, j, c, -, hc⟩
    rcases hc.site with hc | ⟨position, hc⟩ <;>
      rcases hv with (⟨id, -, rfl⟩ | ⟨-, -⟩ | ⟨-, -, -⟩) | ⟨-, rfl⟩ <;> cases hc
  · constructor
    · rintro (((⟨id, hid, rfl⟩ | h) | ⟨hs, rfl⟩) | ⟨i, ⟨key, node⟩, entry, j, c, choice, h⟩)
      · exact .listedTwice (mem_distinct.1 hid)
      · rcases h with ⟨-, hc⟩ | ⟨number, entry, ne, first⟩
        · exact .carriedTwice hc
        · rw [number, Nat.zero_add]
          exact .mismatch entry ne first
      · exact .noStart hs
      · exact .choice entry choice h
    · intro h
      cases h with
      | listedTwice hid => exact .inl (.inl (.inl ⟨_, mem_distinct.2 hid, rfl⟩))
      | @carriedTwice id hc =>
        -- the entries give no second issue for an id that a document listed repeatedly
        by_cases hid : id ∈ distinct listed
        · exact .inl (.inl (.inl ⟨_, hid, rfl⟩))
        · exact .inl (.inl (.inr (.carriedTwice ⟨hid, hc⟩)))
      | @mismatch i key node entry ne first =>
        exact .inl (.inl (.inr (.mismatch (Nat.zero_add i).symm ⟨entry, ne, first⟩)))
      | noStart hs => exact .inl (.inr ⟨hs, rfl⟩)
      | choice entry choice h => exact .inr ⟨_, _, entry, _, _, choice, h⟩

theorem Violation.kind_ne {listed : List String} (h : s.Violation listed v) :
    v.2.kind ≠ .circularReference := by
  cases h with
  | choice _ _ h => cases h <;> exact nofun
  | _ => exact nofun

theorem issues_eq_nil_iff {allowCycles : Bool} {listed : List String} :
    s.issues allowCycles listed = [] ↔
      (∀ v, ¬ s.Violation listed v) ∧ (allowCycles = true ∨ s.transitions.Acyclic) := by
  unfold issues
  rw [List.append_eq_nil_iff, (reports_staticIssues s listed).eq_nil_iff]
  cases allowCycles <;> simp [cycleIssues, Graph.cycles_eq_nil_iff, transitions_closed]

/-- The issues other than cycles are the violations, each reported once, and a story has no issues
exactly if it has no violations and, unless cycles are allowed, no cycles. -/
theorem issues_correspondence (s : Story) (allowCycles : Bool) (listed : List String) :
    (∃ vs : List (Site × Issue), vs.Nodup ∧ (∀ v, v ∈ vs ↔ s.Violation listed v) ∧
      (s.issues allowCycles listed).filter (·.kind ≠ .circularReference) = vs.map Prod.snd) ∧
    (s.issues allowCycles listed = [] ↔
      (∀ v, ¬ s.Violation listed v) ∧ (allowCycles = true ∨ s.transitions.Acyclic)) := by
  obtain ⟨vs, hn, hmem, heq⟩ := reports_staticIssues s listed
  have hstatic : (s.staticIssues listed).filter (·.kind ≠ .circularReference) = vs.map Prod.snd := by
    rw [heq, List.filter_eq_self]
    intro issue h
    obtain ⟨v, hv, rfl⟩ := List.mem_map.1 h
    simpa using ((hmem v).1 hv).kind_ne
  have hcycles : s.cycleIssues.filter (·.kind ≠ .circularReference) = [] := by
    simp [cycleIssues, Issue.kind]
  refine ⟨⟨vs, hn, hmem, ?_⟩, issues_eq_nil_iff⟩
  unfold issues
  rw [List.filter_append, hstatic]
  cases allowCycles with
  | false => rw [if_neg Bool.false_ne_true, hcycles, List.append_nil]
  | true => rw [if_pos rfl, List.filter_nil, List.append_nil]

end Story

end Gamebook
