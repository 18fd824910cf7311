import Gamebook.Schema
import Gamebook.Story.Loading
import Gamebook.Proofs.Placement
import Gamebook.Proofs.Violation
import Gamebook.Proofs.Written

/-!
# Repeated keys in a text

Which ids the issues name that a story gets for the keys of its nodes and their ids when it is
loaded from text (`loadText_duplicates`): the keys that the nodes list repeatedly and the ids that
two entries carry.  If the nodes list no key repeatedly, keys of objects that are
discarded while the text is read can be taken for theirs, as in `ghostText`.
-/

namespace Gamebook

/-- A name is repeated if it occurs twice, or once if it has been seen before. -/
theorem mem_repeats_iff {α : Type} [DecidableEq α] {a : α} {seen as : List α} :
    a ∈ repeats seen as ↔ 2 ≤ as.count a ∨ a ∈ seen ∧ a ∈ as := by
  induction as generalizing seen with
  | nil => simp [repeats]
  | cons b as ih =>
    have hcount : 0 < as.count a ↔ a ∈ as := List.count_pos_iff
    rw [repeats, List.count_cons, List.mem_cons]
    by_cases hab : b = a
    · subst hab
      split
      · next hseen => simp [hseen]
      · next hseen =>
        rw [ih]
        grind
    · have hab' : ¬ a = b := fun heq => hab heq.symm
      split <;> simp [ih, hab, hab']

/-! ## Nodes -/

/-- The id of an issue for an id that several nodes carry or a document lists repeatedly. -/
def Issue.duplicateNode? : Issue → Option String
  | .duplicateNode id => some id
  | _ => none

theorem Issue.filter_duplicateNode (issues : List Issue) :
    issues.filter (fun i => i.kind = .duplicateId ∧ i.choice? = none) =
      (issues.filterMap duplicateNode?).map .duplicateNode := by
  induction issues with
  | nil => rfl
  | cons i issues ih =>
    cases i with
    | duplicateNode id => exact congrArg (Issue.duplicateNode id :: ·) ih
    | _ => exact ih

namespace Story

/-- The keys of the nodes in a written document, as often as they are written.  Of several `nodes`
members the last one counts. -/
def nodeKeys : Datum → List String
  | .object ms =>
    match Datum.lastMember? "nodes" ms with
    | some (.object nodes) => nodes.map Prod.fst
    | _ => []
  | _ => []

/-- The names repeated by the objects that are discarded while the members of a written document
come into memory. -/
def discardedKeys : Datum → List String
  | .object ms => Datum.discardedInMembers ms
  | _ => []

/-- Making the object of a whole document leaves the note of its nodes alone. -/
theorem notedKeys_object (ms : List (String × Datum)) :
    notedKeys (.object ms) =
      match (Datum.placeMembers ms {}).1.reverse.lookup "nodes" with
      | some (.object place _) => (Datum.placeMembers ms {}).2.noted place
      | _ => [] := by
  obtain ⟨hgrown, -⟩ := Datum.placeMembers_grown ms .empty
  show (match (mergeEntries (Datum.placeMembers ms {}).1).lookup "nodes" with
    | some (.object place _) => ((Datum.placeMembers ms {}).2.make _).2.noted place
    | _ => []) = _
  rw [lookup_mergeEntries]
  split
  · next place ts hlookup =>
    have hmem : ("nodes", .object place ts) ∈ mergeEntries (Datum.placeMembers ms {}).1 :=
      mem_mergeEntries_iff.2 hlookup
    refine hgrown.sound.noted_make (List.mem_append_left _ ?_)
    rw [(Datum.perm_placesMembers _).mem_iff, List.mem_append, Datum.placesMembers_eq]
    exact .inl (List.mem_flatMap.2 ⟨_, hmem, List.mem_cons_self⟩)
  · rfl

/-- The keys that the nodes repeat are noted, and other keys only if the nodes repeat none and
a discarded object repeats them. -/
theorem notedKeys_notes (d : Datum) :
    (repeats [] (nodeKeys d) ≠ [] → notedKeys d = repeats [] (nodeKeys d)) ∧
    (repeats [] (nodeKeys d) = [] → notedKeys d ⊆ discardedKeys d) := by
  cases d with
  | object ms =>
    obtain ⟨-, hstand⟩ := Datum.placeMembers_grown ms .empty
    have hlookup := forall₂_lookup (List.forall₂_reverse_iff.2 hstand) "nodes"
    rw [notedKeys_object, nodeKeys, Datum.lastMember?, discardedKeys]
    generalize ms.reverse.lookup "nodes" = nodes at hlookup ⊢
    generalize (Datum.placeMembers ms {}).1.reverse.lookup "nodes" = value at hlookup ⊢
    cases hlookup with
    | none => exact ⟨fun h => absurd rfl h, fun _ => nofun⟩
    | some h =>
      cases h.own with
      | object hnotes =>
        rw [List.append_nil] at hnotes
        exact ⟨hnotes.own, hnotes.stray⟩
      | other datum value =>
        split
        · next hnodes => cases hnodes; exact absurd rfl (datum _)
        · split
          · next hvalue => cases hvalue; exact absurd rfl (value _ _)
          · exact ⟨fun h => absurd rfl h, fun _ => nofun⟩
  | _ => exact ⟨fun _ => rfl, fun _ => nofun⟩

theorem Violation.of_duplicateNode {s : Story} {listed : List String} {v : Site × Issue} {id : String}
    (h : s.Violation listed v) (hv : v.2.duplicateNode? = some id) :
    v = (.id id, .duplicateNode id) ∧
      (id ∈ listed ∨ 2 ≤ (s.nodes.entries.map fun e => e.2.id).count id) := by
  cases h with
  | listedTwice h => cases hv; exact ⟨rfl, .inl h⟩
  | carriedTwice h => cases hv; exact ⟨rfl, .inr h⟩
  | mismatch => cases hv
  | noStart => cases hv
  | choice _ _ h => cases h <;> cases hv

/-- Among the issues of a story are one for each id that is listed or carried by two entries. -/
theorem duplicateNode_issues (s : Story) (allowCycles : Bool) (listed : List String) :
    ((s.issues allowCycles listed).filterMap Issue.duplicateNode?).Nodup ∧
    ∀ id, id ∈ (s.issues allowCycles listed).filterMap Issue.duplicateNode? ↔
      id ∈ listed ∨ 2 ≤ (s.nodes.entries.map fun e => e.2.id).count id := by
  obtain ⟨vs, hnodup, hmem, hstatic⟩ := reports_staticIssues s listed
  have hcycles : (if allowCycles then [] else s.cycleIssues).filterMap Issue.duplicateNode? = [] := by
    split
    · rfl
    · simp [cycleIssues, List.filterMap_map, Issue.duplicateNode?]
  rw [issues, List.filterMap_append, hcycles, List.append_nil, hstatic, List.filterMap_map]
  refine ⟨?_, fun id => ?_⟩
  · rw [List.Nodup, List.pairwise_filterMap]
    refine hnodup.imp_of_mem fun hv hw hne id hid id' hid' heq => hne ?_
    subst heq
    rw [(((hmem _).1 hv).of_duplicateNode hid).1, (((hmem _).1 hw).of_duplicateNode hid').1]
  · rw [List.mem_filterMap]
    constructor
    · rintro ⟨v, hv, hid⟩
      exact (((hmem v).1 hv).of_duplicateNode hid).2
    · rintro (h | h)
      · exact ⟨_, (hmem _).2 (.listedTwice h), rfl⟩
      · exact ⟨_, (hmem _).2 (.carriedTwice h), rfl⟩

/-- A text whose story is well-formed is loaded with the story or refused with its issues.  The issues
of the kind duplicate id that are about no choice name each id once: the keys that its nodes
list repeatedly, the ids that two entries carry, and no other id unless the nodes list no key
repeatedly and a discarded object does. -/
theorem loadText_duplicates {checker : Checker} {cs : List Char} {d : Datum} {s : Story}
    (allowCycles : Bool) (hread : Datum.readWritten cs = .ok d)
    (hstory : ofDatum checker d.settle = .ok s) :
    (∃ (issues : List Issue) (ids : List String),
      loadText checker cs allowCycles = (if issues = [] then .ok s else .error (.invalid issues)) ∧
      issues.filter (fun i => i.kind = .duplicateId ∧ i.choice? = none) =
        ids.map .duplicateNode ∧
      ids.Nodup ∧
      (∀ id, 2 ≤ (nodeKeys d).count id ∨ 2 ≤ (s.nodes.entries.map fun e => e.2.id).count id →
        id ∈ ids) ∧
      ∀ id ∈ ids, 2 ≤ (nodeKeys d).count id ∨
        2 ≤ (s.nodes.entries.map fun e => e.2.id).count id ∨
        (nodeKeys d).Nodup ∧ id ∈ discardedKeys d) ∧
    ((nodeKeys d).Nodup → discardedKeys d = [] →
      loadText checker cs allowCycles = load checker d.settle allowCycles []) := by
  obtain ⟨hown, hstray⟩ := notedKeys_notes d
  have hmem : ∀ {id}, id ∈ repeats [] (nodeKeys d) ↔ 2 ≤ (nodeKeys d).count id := by
    simp [mem_repeats_iff]
  have hnil : repeats [] (nodeKeys d) = [] ↔ (nodeKeys d).Nodup := by
    rw [List.eq_nil_iff_forall_not_mem, List.nodup_iff_count_le_one]
    exact forall_congr' fun id => by rw [hmem]; omega
  have hload : loadText checker cs allowCycles = load checker d.settle allowCycles (notedKeys d) := by
    unfold loadText
    rw [hread]
  refine ⟨?_, fun hnodup hdiscarded => ?_⟩
  · obtain ⟨hnodup, hids⟩ := duplicateNode_issues s allowCycles (notedKeys d)
    refine ⟨_, _, ?_, Issue.filter_duplicateNode _, hnodup, fun id h => ?_, fun id h => ?_⟩
    · rw [hload, load, hstory]
      show s.validated allowCycles (notedKeys d) = _
      unfold validated
      split
      · next hissues => rw [if_pos hissues]
      · next hissues => rw [if_neg hissues]
    · rw [hids]
      refine h.imp_left fun h => ?_
      have hid := hmem.2 h
      rw [hown (List.ne_nil_of_mem hid)]
      exact hid
    · rcases (hids id).1 h with h | h
      · rcases eq_or_ne (repeats [] (nodeKeys d)) [] with heq | hne
        · exact .inr (.inr ⟨hnil.1 heq, hstray heq h⟩)
        · rw [hown hne] at h
          exact .inl (hmem.1 h)
      · exact .inr (.inl h)
  · have hnone : notedKeys d ⊆ [] := hdiscarded ▸ hstray (hnil.2 hnodup)
    rw [hload, List.subset_nil.1 hnone]

/-- A document whose nodes list a key repeatedly, and another object in it as well. -/
def twinsDatum : Datum :=
  .object [("startNode", .text "a"), ("nodes", .object [
    ("a", .object [("note", .object [("k", .int 1), ("k", .int 2)])]), ("b", .object []),
    ("b", .object [("id", .text "a")])])]

theorem loadText_duplicates_twins : ∃ (issues : List Issue) (ids : List String),
    loadText Schema.checker twinsDatum.compact true = .error (.invalid issues) ∧
    issues.filter (fun i => i.kind = .duplicateId ∧ i.choice? = none) = ids.map .duplicateNode ∧
    ids.Nodup ∧ ∀ id, id ∈ ids ↔ id = "a" ∨ id = "b" := by
  have hread : Datum.readWritten twinsDatum.compact = .ok twinsDatum :=
    Datum.readWritten_compact (by decide +kernel)
  obtain ⟨s, hstory, hcarried⟩ : ∃ s, ofDatum Schema.checker twinsDatum.settle = .ok s ∧
      s.nodes.entries.map (fun e => e.2.id) = ["a", "a"] := ⟨_, rfl, rfl⟩
  have hkeys : nodeKeys twinsDatum = ["a", "b", "b"] := by decide +kernel
  obtain ⟨⟨issues, ids, hload, hids, hnodup, hall, honly⟩, -⟩ :=
    loadText_duplicates true hread hstory
  rw [hcarried, hkeys] at hall honly
  have hdiscarded : discardedKeys twinsDatum = [] := by decide +kernel
  have hmem : ∀ id, id ∈ ids ↔ id = "a" ∨ id = "b" := by
    intro id
    have hall := hall id
    have honly := honly id
    rw [hdiscarded] at honly
    grind
  refine ⟨issues, ids, ?_, hids, hnodup, hmem⟩
  rw [hload, if_neg]
  rintro rfl
  have ha := (hmem "a").2 (.inl rfl)
  rw [List.map_eq_nil_iff.1 hids.symm] at ha
  cases ha

/-- A text whose nodes list no key repeatedly, but an object that is discarded inside them does. -/
def ghostText : String :=
  "\x7b\"startNode\":\"a\",\"nodes\":\x7b\"a\":\x7b\"choices\":[],"
    ++ "\"note\":\x7b\"k\":1,\"k\":2\x7d,\"note\":3\x7d\x7d\x7d"

def ghostDatum : Datum :=
  .object [("startNode", .text "a"), ("nodes", .object [("a", .object [("choices", .list []),
    ("note", .object [("k", .int 1), ("k", .int 2)]), ("note", .int 3)])])]

theorem ghost_key :
    Datum.readWritten ghostText.toList = .ok ghostDatum ∧ (nodeKeys ghostDatum).Nodup ∧
    ∃ s, load Schema.checker ghostDatum.settle true [] = .ok s ∧
      (s.nodes.entries.map fun e => e.2.id).Nodup ∧
      loadText Schema.checker ghostText.toList true = .error (.invalid [.duplicateNode "k"]) := by
  have hprinted : ghostText.toList = ghostDatum.compact := by decide +kernel
  have hread : Datum.readWritten ghostText.toList = .ok ghostDatum := by
    rw [hprinted]
    exact Datum.readWritten_compact (by decide +kernel)
  have hkeys : nodeKeys ghostDatum = ["a"] := by decide +kernel
  have hnoted : notedKeys ghostDatum = ["k"] := by decide +kernel
  obtain ⟨s, hstory, hcarried, hnone, hissues⟩ : ∃ s,
      ofDatum Schema.checker ghostDatum.settle = .ok s ∧ s.nodes.entries.map (fun e => e.2.id) = ["a"] ∧
      s.issues true [] = [] ∧ s.issues true ["k"] = [.duplicateNode "k"] :=
    ⟨_, rfl, rfl, by decide +kernel, by decide +kernel⟩
  refine ⟨hread, by rw [hkeys]; decide, s, ?_, by rw [hcarried]; decide, ?_⟩
  · rw [load, hstory]
    show s.validated true [] = _
    rw [validated, hnone]
  · rw [loadText, hread]
    show load Schema.checker ghostDatum.settle true (notedKeys ghostDatum) = _
    rw [load, hstory, hnoted]
    show s.validated true ["k"] = _
    rw [validated, hissues]

end Story

end Gamebook
