import Gamebook.Datum.Memory
import Mathlib.Data.List.Induction
import Mathlib.Data.List.Nodup
import Mathlib.Data.List.Perm.Basic

/-!
# What is noted in memory

While a document comes into memory, live objects have places of their own, and what is noted under
a place is what its object repeats, unless the object repeats nothing: then it may be what an
object repeated that was discarded before (`place_grown`).  `Memory.Sound` is the invariant; making
an object preserves it (`Memory.Sound.make`), since the objects that are discarded then are those of
the members that a later one replaces (`perm_mergeEntries`).
-/

namespace Gamebook

/-! ## Entries that are replaced -/

section Entries

variable {α : Type}

/-- The entries that a later one of the same name replaces. -/
def replacedEntries : List (String × α) → List (String × α)
  | [] => []
  | e :: es =>
    if e.1 ∈ es.map Prod.fst then e :: replacedEntries es else replacedEntries es

theorem mergeEntries_concat (es : List (String × α)) (e : String × α) :
    mergeEntries (es ++ [e]) = putEntry e.1 e.2 (mergeEntries es) := by
  unfold mergeEntries
  rw [List.foldl_append]
  rfl

theorem nodup_mergeEntries (es : List (String × α)) : ((mergeEntries es).map Prod.fst).Nodup := by
  induction es using List.reverseRecOn with
  | nil => exact List.nodup_nil
  | append_singleton es e ih =>
    rw [mergeEntries_concat]
    exact nodup_putEntry ih _ _

theorem lookup_mergeEntries (es : List (String × α)) (name : String) :
    (mergeEntries es).lookup name = es.reverse.lookup name := by
  induction es using List.reverseRecOn with
  | nil => rfl
  | append_singleton es e ih =>
    rw [mergeEntries_concat, lookup_putEntry, ih, List.reverse_append, List.reverse_singleton,
      List.singleton_append]
    by_cases h : name = e.1
    · rw [if_pos h, List.lookup_cons, h, beq_self_eq_true]
    · rw [if_neg h, List.lookup_cons, beq_false_of_ne h]

theorem mem_mergeEntries_iff {es : List (String × α)} {e : String × α} :
    e ∈ mergeEntries es ↔ es.reverse.lookup e.1 = some e.2 := by
  rw [← lookup_mergeEntries, lookup_eq_some_iff_mem (nodup_mergeEntries es)]

theorem lookup_reverse_eq_none_iff {es : List (String × α)} {name : String} :
    es.reverse.lookup name = none ↔ name ∉ es.map Prod.fst := by
  rw [List.lookup_eq_none_iff, List.mem_map]
  simp only [List.mem_reverse, bne_iff_ne, not_exists, not_and]
  exact forall₂_congr fun e _ => ⟨Ne.symm, Ne.symm⟩

/-- An entry in front is kept only if no later one replaces it. -/
theorem mem_mergeEntries_cons_iff {e f : String × α} {es : List (String × α)} :
    f ∈ mergeEntries (e :: es) ↔
      f ∈ mergeEntries es ∨ f = e ∧ e.1 ∉ es.map Prod.fst := by
  rw [mem_mergeEntries_iff, mem_mergeEntries_iff, List.reverse_cons, List.lookup_append,
    Option.or_eq_some_iff, lookup_reverse_eq_none_iff]
  refine or_congr_right ?_
  obtain ⟨k, v⟩ := e
  obtain ⟨name, value⟩ := f
  by_cases h : name = k
  · subst h
    simp [and_comm, eq_comm]
  · simp [List.lookup_cons, beq_false_of_ne h, h]

theorem perm_mergeEntries_cons (e : String × α) (es : List (String × α)) :
    (mergeEntries (e :: es)).Perm
      (if e.1 ∈ es.map Prod.fst then mergeEntries es else e :: mergeEntries es) := by
  have hnodup : ∀ fs : List (String × α), (mergeEntries fs).Nodup :=
    fun fs => (nodup_mergeEntries fs).of_map _
  split
  · next h =>
    rw [List.perm_ext_iff_of_nodup (hnodup _) (hnodup _)]
    intro f
    rw [mem_mergeEntries_cons_iff, or_iff_left fun hf => hf.2 h]
  · next h =>
    have hnot : e ∉ mergeEntries es := by
      rw [mem_mergeEntries_iff, lookup_reverse_eq_none_iff.2 h]
      exact nofun
    rw [List.perm_ext_iff_of_nodup (hnodup _) (List.nodup_cons.2 ⟨hnot, hnodup _⟩)]
    intro f
    rw [mem_mergeEntries_cons_iff, and_iff_left h, List.mem_cons, or_comm]

/-- Merging entries drops those that are replaced. -/
theorem perm_mergeEntries (es : List (String × α)) :
    es.Perm (mergeEntries es ++ replacedEntries es) := by
  induction es with
  | nil => exact .nil
  | cons e es ih =>
    have hcons := perm_mergeEntries_cons e es
    unfold replacedEntries
    split
    · next h =>
      rw [if_pos h] at hcons
      exact (ih.cons e).trans (List.perm_middle.symm.trans (hcons.symm.append_right _))
    · next h =>
      rw [if_neg h] at hcons
      exact (ih.cons e).trans (hcons.symm.append_right _)

theorem forall₂_keys {β : Type} {R : α → β → Prop} {es : List (String × α)}
    {fs : List (String × β)} (h : List.Forall₂ (fun e f => e.1 = f.1 ∧ R e.2 f.2) es fs) :
    es.map Prod.fst = fs.map Prod.fst := by
  induction h with
  | nil => rfl
  | cons h _ ih => rw [List.map_cons, List.map_cons, h.1, ih]

theorem forall₂_replacedEntries {β : Type} {R : α → β → Prop} {es : List (String × α)}
    {fs : List (String × β)} (h : List.Forall₂ (fun e f => e.1 = f.1 ∧ R e.2 f.2) es fs) :
    List.Forall₂ (fun e f => e.1 = f.1 ∧ R e.2 f.2) (replacedEntries es) (replacedEntries fs) := by
  induction h with
  | nil => exact .nil
  | cons h htail ih =>
    rw [replacedEntries, replacedEntries, ← h.1, ← forall₂_keys htail]
    split
    · exact .cons h ih
    · exact ih

theorem forall₂_lookup {β : Type} {R : α → β → Prop} {es : List (String × α)}
    {fs : List (String × β)} (h : List.Forall₂ (fun e f => e.1 = f.1 ∧ R e.2 f.2) es fs)
    (name : String) : Option.Rel R (es.lookup name) (fs.lookup name) := by
  induction h with
  | nil => exact .none
  | @cons e f es fs h _ ih =>
    rw [List.lookup_cons, List.lookup_cons, ← h.1]
    split
    · exact .some h.2
    · exact ih

end Entries

namespace Datum

/-! ## Places -/

mutual

/-- The places of the objects in a value. -/
def Placed.places : Placed → List Nat
  | .scalar => []
  | .list items => placesItems items
  | .object place members => place :: placesMembers members

/-- The places in items. -/
def placesItems : List Placed → List Nat
  | [] => []
  | t :: ts => t.places ++ placesItems ts

/-- The places in the values of members. -/
def placesMembers : List (String × Placed) → List Nat
  | [] => []
  | (_, t) :: ms => t.places ++ placesMembers ms

end

theorem placesMembers_eq (ms : List (String × Placed)) :
    placesMembers ms = ms.flatMap fun e => e.2.places := by
  induction ms with
  | nil => rfl
  | cons e ms ih => rw [placesMembers, ih, List.flatMap_cons]

mutual

/-- Discarding a value vacates the places in it. -/
theorem perm_discard : (t : Placed) → (vacant : List Nat) →
    (t.discard vacant).Perm (t.places ++ vacant)
  | .scalar, _ => .refl _
  | .list items, vacant => perm_discardItems items vacant
  | .object place members, vacant => (perm_discardMembers members vacant).cons place

theorem perm_discardItems : (ts : List Placed) → (vacant : List Nat) →
    (discardItems ts vacant).Perm (placesItems ts ++ vacant)
  | [], _ => .refl _
  | t :: ts, vacant => by
    rw [discardItems, placesItems, List.append_assoc]
    exact (perm_discard t _).trans ((perm_discardItems ts vacant).append_left _)

theorem perm_discardMembers : (ms : List (String × Placed)) → (vacant : List Nat) →
    (discardMembers ms vacant).Perm (placesMembers ms ++ vacant)
  | [], _ => .refl _
  | (_, t) :: ms, vacant => by
    rw [discardMembers, placesMembers, List.append_assoc]
    have hswap : (placesMembers ms ++ (t.places ++ vacant)).Perm
        (t.places ++ (placesMembers ms ++ vacant)) := List.perm_append_comm_assoc ..
    exact (perm_discardMembers ms _).trans (((perm_discard t vacant).append_left _).trans hswap)

end

theorem perm_placesMembers (ts : List (String × Placed)) :
    (placesMembers ts).Perm
      (placesMembers (mergeEntries ts) ++ placesMembers (replacedEntries ts)) := by
  simp only [placesMembers_eq, ← List.flatMap_append]
  exact (perm_mergeEntries ts).flatMap_right _

theorem perm_discardReplaced (ms : List (String × Placed)) (vacant : List Nat) :
    (discardReplaced ms vacant).Perm (placesMembers (replacedEntries ms) ++ vacant) := by
  induction ms with
  | nil => exact .refl _
  | cons e ms ih =>
    obtain ⟨k, t⟩ := e
    rw [discardReplaced, replacedEntries]
    split
    · rw [placesMembers, List.append_assoc]
      exact (perm_discard t _).trans (ih.append_left _)
    · exact ih

/-! ## Memories -/

/-- The invariant of a memory: the places of the live objects and the vacant ones are all different
and have been taken, and other names than `stray` are noted only under live objects. -/
structure Memory.Sound (m : Memory) (live : List Nat) (stray : List String) : Prop where
  nodup : (live ++ m.vacant).Nodup
  taken : ∀ p ∈ live ++ m.vacant, p < m.taken
  noted : ∀ p, p ∉ live → m.noted p ⊆ stray

namespace Memory

variable {m : Memory} {live live' gone : List Nat} {stray stray' : List String}

theorem Sound.empty : Sound {} [] [] :=
  ⟨List.nodup_nil, nofun, fun _ _ => List.Subset.refl _⟩

theorem Sound.congr (h : m.Sound live stray) (hlive : live.Perm live') (hstray : stray ⊆ stray') :
    m.Sound live' stray' where
  nodup := (hlive.append_right m.vacant).nodup_iff.1 h.nodup
  taken p hp := h.taken p ((hlive.append_right m.vacant).mem_iff.2 hp)
  noted p hp := List.Subset.trans (h.noted p (hlive.mem_iff.not.2 hp)) hstray

/-- A place that is taken is not that of a live object. -/
theorem Sound.take (h : m.Sound live stray) :
    m.take.2.Sound (m.take.1 :: live) stray ∧ m.take.1 ∉ live ∧ m.take.2.noted = m.noted := by
  unfold Memory.take
  split
  · next place vacant heq =>
    have hnodup := h.nodup
    have htaken := h.taken
    rw [heq] at hnodup htaken
    have hperm : (live ++ place :: vacant).Perm (place :: live ++ vacant) := List.perm_middle
    have hcons := hperm.nodup_iff.1 hnodup
    refine ⟨⟨hcons, fun p hp => htaken p (hperm.mem_iff.2 hp),
      fun p hp => h.noted p fun hlive => hp (List.mem_cons_of_mem _ hlive)⟩, ?_, rfl⟩
    exact fun hlive => (List.nodup_cons.1 hcons).1 (List.mem_append_left _ hlive)
  · next heq =>
    have hfresh : m.taken ∉ live ++ m.vacant := fun hp => Nat.lt_irrefl _ (h.taken _ hp)
    refine ⟨⟨List.nodup_cons.2 ⟨hfresh, h.nodup⟩, ?_,
      fun p hp => h.noted p fun hlive => hp (List.mem_cons_of_mem _ hlive)⟩, ?_, rfl⟩
    · intro p hp
      rcases List.mem_cons.1 hp with rfl | hp
      · exact Nat.lt_succ_self _
      · exact Nat.lt_succ_of_lt (h.taken p hp)
    · exact fun hlive => hfresh (List.mem_append_left _ hlive)

theorem noted_note_of_ne {place p : Nat} (h : p ≠ place) (names : List String) :
    (m.note place names).noted p = m.noted p := by
  unfold note
  split
  · rfl
  · exact if_neg h

theorem noted_note_self {place : Nat} {names : List String} (h : names ≠ []) :
    (m.note place names).noted place = names := by
  rw [note, if_neg h]
  exact if_pos rfl

theorem note_nil (place : Nat) : m.note place [] = m := rfl

theorem Sound.note {place : Nat} (h : m.Sound live stray) (hplace : place ∈ live)
    (names : List String) : (m.note place names).Sound live stray := by
  have hvacant : (m.note place names).vacant = m.vacant := by unfold Memory.note; split <;> rfl
  have htaken : (m.note place names).taken = m.taken := by unfold Memory.note; split <;> rfl
  refine ⟨hvacant ▸ h.nodup, hvacant.symm ▸ htaken.symm ▸ h.taken, fun p hp => ?_⟩
  have hne : p ≠ place := fun heq => hp (heq ▸ hplace)
  rw [noted_note_of_ne hne]
  exact h.noted p hp

/-- The places of discarded objects become vacant, and what is noted under them is stray. -/
theorem Sound.discard {vacant : List Nat} (h : m.Sound (gone ++ live) stray)
    (hvacant : vacant.Perm (gone ++ m.vacant)) (hgone : ∀ p ∈ gone, m.noted p ⊆ stray) :
    Sound { m with vacant } live stray := by
  have hperm : (live ++ vacant).Perm (gone ++ live ++ m.vacant) := by
    rw [List.append_assoc]
    exact (hvacant.append_left live).trans (List.perm_append_comm_assoc ..)
  refine ⟨hperm.nodup_iff.2 h.nodup, fun p hp => h.taken p (hperm.mem_iff.1 hp), fun p hp => ?_⟩
  by_cases hp' : p ∈ gone
  · exact hgone p hp'
  · exact h.noted p fun hmem => (List.mem_append.1 hmem).elim hp' hp

/-- What is noted under an object: the names that it repeats, or if there are none, perhaps stray
names. -/
structure Notes (m : Memory) (stray : List String) (place : Nat) (names : List String) : Prop where
  own : names ≠ [] → m.noted place = names
  stray : names = [] → m.noted place ⊆ stray

theorem Notes.congr {m' : Memory} {place : Nat} {names : List String}
    (h : m.Notes stray place names) (hnoted : m'.noted place = m.noted place)
    (hstray : stray ⊆ stray') : m'.Notes stray' place names where
  own hnames := hnoted.trans (h.own hnames)
  stray hnames := hnoted ▸ List.Subset.trans (h.stray hnames) hstray

theorem Notes.subset {place : Nat} {names : List String} (h : m.Notes stray place names) :
    m.noted place ⊆ names ++ stray := by
  rcases eq_or_ne names [] with hnames | hnames
  · exact List.subset_append_of_subset_right _ (h.stray hnames)
  · rw [h.own hnames]
    exact List.subset_append_left _ _

/-- Making an object changes no note of a live one. -/
theorem Sound.noted_make {ts : List (String × Placed)} (h : m.Sound live stray) {p : Nat}
    (hp : p ∈ live) : (m.make ts).2.noted p = m.noted p := by
  obtain ⟨-, hfresh, hnoted⟩ := h.take
  have hne : p ≠ m.take.1 := fun heq => hfresh (heq ▸ hp)
  show (m.take.2.note m.take.1 _).noted p = _
  rw [noted_note_of_ne hne, hnoted]

/-- Making an object keeps the memory sound. -/
theorem Sound.make {ts : List (String × Placed)} (h : m.Sound (placesMembers ts ++ live) stray)
    (hgone : ∀ p ∈ placesMembers (replacedEntries ts), m.noted p ⊆ stray) :
    ∃ place, (m.make ts).1 = .object place (mergeEntries ts) ∧
      (m.make ts).2.Sound ((m.make ts).1.places ++ live) stray ∧
      (m.make ts).2.Notes stray place (repeats [] (ts.map Prod.fst)) := by
  obtain ⟨htake, hfresh, hnoted⟩ := h.take
  refine ⟨m.take.1, rfl, ?_, ?_⟩
  · have hsplit := perm_placesMembers ts
    have hlive : (m.take.1 :: (placesMembers ts ++ live)).Perm
        (placesMembers (replacedEntries ts) ++
          (m.take.1 :: placesMembers (mergeEntries ts) ++ live)) := by
      refine ((hsplit.append_right live).cons m.take.1).trans ?_
      rw [List.append_assoc]
      exact List.perm_append_comm_assoc (m.take.1 :: placesMembers (mergeEntries ts)) _ _
    have hnote := (htake.congr hlive (List.Subset.refl _)).note
      (List.mem_append_right _ List.mem_cons_self) (repeats [] (ts.map Prod.fst))
    refine hnote.discard (perm_discardReplaced ts _) fun p hp => ?_
    have hp' : p ∈ placesMembers ts := hsplit.mem_iff.2 (List.mem_append_right _ hp)
    exact h.noted_make (List.mem_append_left _ hp') ▸ hgone p hp
  · refine ⟨noted_note_self, fun hnames => ?_⟩
    show (m.take.2.note m.take.1 _).noted m.take.1 ⊆ _
    rw [hnames, note_nil, hnoted]
    exact h.noted _ hfresh

/-- From one memory to another, objects come to `places`, and the notes of live objects stay. -/
structure Grown (m m' : Memory) (live places : List Nat) (stray : List String) : Prop where
  sound : m'.Sound (places ++ live) stray
  kept : ∀ p ∈ live, m'.noted p = m.noted p

theorem Grown.trans {m' m'' : Memory} {places places' : List Nat} {stray'' : List String}
    (h : m.Grown m' live places stray) (h' : m'.Grown m'' (places ++ live) places' stray')
    (hstray : stray' ⊆ stray'') : m.Grown m'' live (places ++ places') stray'' := by
  refine ⟨h'.sound.congr ?_ hstray, fun p hp => ?_⟩
  · rw [List.append_assoc]
    exact List.perm_append_comm_assoc ..
  · rw [h'.kept p (List.mem_append_right _ hp), h.kept p hp]

end Memory

/-! ## Names that objects repeat -/

mutual

/-- The names that the objects in a written datum repeat, each object its own. -/
def repeatedNames : Datum → List String
  | .list items => repeatedInItems items
  | .object members => repeats [] (members.map Prod.fst) ++ repeatedInMembers members
  | _ => []

/-- The names that the objects in items repeat. -/
def repeatedInItems : List Datum → List String
  | [] => []
  | d :: ds => repeatedNames d ++ repeatedInItems ds

/-- The names that the objects in the values of members repeat. -/
def repeatedInMembers : List (String × Datum) → List String
  | [] => []
  | (_, d) :: ms => repeatedNames d ++ repeatedInMembers ms

end

mutual

/-- The names repeated by the objects that are discarded while a written datum comes into memory:
those in the values of members that a later one of the same object replaces. -/
def discardedNames : Datum → List String
  | .list items => discardedInItems items
  | .object members => discardedInMembers members ++ repeatedInMembers (replacedEntries members)
  | _ => []

/-- The names repeated by the objects discarded inside items. -/
def discardedInItems : List Datum → List String
  | [] => []
  | d :: ds => discardedNames d ++ discardedInItems ds

/-- The names repeated by the objects discarded inside the values of members. -/
def discardedInMembers : List (String × Datum) → List String
  | [] => []
  | (_, d) :: ms => discardedNames d ++ discardedInMembers ms

end

/-! ## Placed data -/

/-- What is noted under a written datum in memory, if it is an object. -/
inductive OwnNotes (m : Memory) (stray : List String) : Datum → Placed → Prop where
  | object {ms : List (String × Datum)} {place : Nat} {ts : List (String × Placed)}
    (h : m.Notes stray place (repeats [] (ms.map Prod.fst))) :
    OwnNotes m stray (.object ms) (.object place ts)
  | other {d : Datum} {t : Placed} (datum : ∀ ms, d ≠ .object ms)
    (value : ∀ place ts, t ≠ .object place ts) : OwnNotes m stray d t

/-- A written datum stands in memory as a value: what is noted under its own place is its own or
stray, and under a place in it, is repeated in it or stray. -/
structure Stands (m : Memory) (stray : List String) (d : Datum) (t : Placed) : Prop where
  own : OwnNotes m stray d t
  noted : ∀ p ∈ t.places, m.noted p ⊆ d.repeatedNames ++ stray

/-- Members stand in memory as members with the same names. -/
def MembersStand (m : Memory) (stray : List String) (ms : List (String × Datum))
    (ts : List (String × Placed)) : Prop :=
  List.Forall₂ (fun e f => e.1 = f.1 ∧ Stands m stray e.2 f.2) ms ts

section Stands

variable {m m' : Memory} {live : List Nat} {stray stray' : List String}

theorem Stands.congr {d : Datum} {t : Placed} (h : Stands m stray d t)
    (hnoted : ∀ p ∈ t.places, m'.noted p = m.noted p) (hstray : stray ⊆ stray') :
    Stands m' stray' d t := by
  refine ⟨?_, fun p hp => ?_⟩
  · cases h.own with
    | object hown => exact .object (hown.congr (hnoted _ List.mem_cons_self) hstray)
    | other datum value => exact .other datum value
  · rw [hnoted p hp]
    exact List.Subset.trans (h.noted p hp)
      (List.append_subset.2 ⟨List.subset_append_left _ _, List.subset_append_of_subset_right _ hstray⟩)

theorem MembersStand.congr {ms : List (String × Datum)} {ts : List (String × Placed)}
    (h : MembersStand m stray ms ts) (hnoted : ∀ p ∈ placesMembers ts, m'.noted p = m.noted p)
    (hstray : stray ⊆ stray') : MembersStand m' stray' ms ts := by
  induction h with
  | nil => exact .nil
  | cons h _ ih =>
    refine .cons ⟨h.1, h.2.congr (fun p hp => hnoted p ?_) hstray⟩ (ih fun p hp => hnoted p ?_)
    · exact List.mem_append_left _ hp
    · exact List.mem_append_right _ hp

theorem MembersStand.noted {ms : List (String × Datum)} {ts : List (String × Placed)}
    (h : MembersStand m stray ms ts) :
    ∀ p ∈ placesMembers ts, m.noted p ⊆ repeatedInMembers ms ++ stray := by
  induction h with
  | nil => exact nofun
  | cons h _ ih =>
    intro p hp name hname
    rw [repeatedInMembers, List.append_assoc]
    rcases List.mem_append.1 hp with hp | hp
    · rcases List.mem_append.1 (h.2.noted p hp hname) with hmem | hmem
      · exact List.mem_append_left _ hmem
      · exact List.mem_append_right _ (List.mem_append_right _ hmem)
    · exact List.mem_append_right _ (ih p hp hname)

mutual

/-- A written datum comes to new places in memory and leaves the notes of live objects alone. -/
theorem place_grown : (d : Datum) → {m : Memory} → {live : List Nat} → {stray : List String} →
    m.Sound live stray →
    m.Grown (d.place m).2 live (d.place m).1.places (d.discardedNames ++ stray) ∧
    Stands (d.place m).2 (d.discardedNames ++ stray) d (d.place m).1
  | .list items, _, _, _, h => by
    obtain ⟨hgrown, hnoted⟩ := placeItems_grown items h
    exact ⟨hgrown, .other nofun nofun, hnoted⟩
  | .object ms, m, live, stray, h => by
    obtain ⟨hgrown, hstand⟩ := placeMembers_grown ms h
    -- what is noted under discarded objects becomes stray
    have hstray : discardedInMembers ms ++ stray ⊆ discardedNames (.object ms) ++ stray := by
      rw [discardedNames]
      grind
    have hgone : ∀ p ∈ placesMembers (replacedEntries (placeMembers ms m).1),
        (placeMembers ms m).2.noted p ⊆ discardedNames (.object ms) ++ stray := by
      intro p hp
      have hreplaced : MembersStand _ _ (replacedEntries ms) _ := forall₂_replacedEntries hstand
      have hnoted := hreplaced.noted p hp
      rw [discardedNames]
      grind
    obtain ⟨place, hplace, hsound, hnotes⟩ := (hgrown.sound.congr (.refl _) hstray).make hgone
    rw [← forall₂_keys hstand] at hnotes
    refine ⟨⟨hsound, fun p hp => ?_⟩, ?_, fun p hp name hname => ?_⟩
    · exact (hgrown.sound.noted_make (List.mem_append_right _ hp)).trans (hgrown.kept p hp)
    · show OwnNotes _ _ _ ((placeMembers ms m).2.make (placeMembers ms m).1).1
      rw [hplace]
      exact .object hnotes
    · replace hp : p ∈ ((placeMembers ms m).2.make (placeMembers ms m).1).1.places := hp
      rw [hplace] at hp
      rw [repeatedNames]
      rcases List.mem_cons.1 hp with rfl | hp
      · have := hnotes.subset hname
        grind
      · have hmem := (perm_placesMembers _).mem_iff.2 (List.mem_append_left _ hp)
        have hname' := hgrown.sound.noted_make (List.mem_append_left _ hmem) ▸ hname
        have := hstand.noted p hmem hname'
        grind
  | .null, _, _, _, h => ⟨⟨h, fun _ _ => rfl⟩, .other nofun nofun, nofun⟩
  | .truth _, _, _, _, h => ⟨⟨h, fun _ _ => rfl⟩, .other nofun nofun, nofun⟩
  | .number _, _, _, _, h => ⟨⟨h, fun _ _ => rfl⟩, .other nofun nofun, nofun⟩
  | .text _, _, _, _, h => ⟨⟨h, fun _ _ => rfl⟩, .other nofun nofun, nofun⟩

theorem placeItems_grown : (ds : List Datum) → {m : Memory} → {live : List Nat} →
    {stray : List String} → m.Sound live stray →
    m.Grown (placeItems ds m).2 live (placesItems (placeItems ds m).1)
      (discardedInItems ds ++ stray) ∧
    ∀ p ∈ placesItems (placeItems ds m).1,
      (placeItems ds m).2.noted p ⊆ repeatedInItems ds ++ (discardedInItems ds ++ stray)
  | [], _, _, _, h => ⟨⟨h, fun _ _ => rfl⟩, nofun⟩
  | d :: ds, m, live, stray, h => by
    obtain ⟨hgrown, hstand⟩ := place_grown d h
    obtain ⟨hgrown', hnoted'⟩ := placeItems_grown ds hgrown.sound
    have hstray : discardedInItems ds ++ (d.discardedNames ++ stray) ⊆
        discardedInItems (d :: ds) ++ stray := by
      rw [discardedInItems]
      grind
    refine ⟨hgrown.trans hgrown' hstray, fun p hp name hname => ?_⟩
    rw [repeatedInItems, discardedInItems]
    rcases List.mem_append.1 hp with hp | hp
    · have hname' := hgrown'.kept p (List.mem_append_left _ hp) ▸ hname
      have := hstand.noted p hp hname'
      grind
    · have := hnoted' p hp hname
      grind

theorem placeMembers_grown : (ms : List (String × Datum)) → {m : Memory} → {live : List Nat} →
    {stray : List String} → m.Sound live stray →
    m.Grown (placeMembers ms m).2 live (placesMembers (placeMembers ms m).1)
      (discardedInMembers ms ++ stray) ∧
    MembersStand (placeMembers ms m).2 (discardedInMembers ms ++ stray) ms (placeMembers ms m).1
  | [], _, _, _, h => ⟨⟨h, fun _ _ => rfl⟩, .nil⟩
  | (k, d) :: ms, m, live, stray, h => by
    obtain ⟨hgrown, hstand⟩ := place_grown d h
    obtain ⟨hgrown', hstand'⟩ := placeMembers_grown ms hgrown.sound
    have hstray : discardedInMembers ms ++ (d.discardedNames ++ stray) ⊆
        discardedInMembers ((k, d) :: ms) ++ stray := by
      rw [discardedInMembers]
      grind
    refine ⟨hgrown.trans hgrown' hstray, .cons ⟨rfl, hstand.congr (fun p hp => ?_) ?_⟩
      (hstand'.congr (fun _ _ => rfl) hstray)⟩
    · exact hgrown'.kept p (List.mem_append_left _ hp)
    · rw [discardedInMembers]
      grind

end

end Stands

end Datum

end Gamebook
