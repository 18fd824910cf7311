import Gamebook.Path
import Gamebook.Proofs.Pieces

/-!
# Where references lead

What a reference names is a calculation with components.  `Leads` says, for each way of writing a
reference, which components of the group are kept and which ones are appended, and the reference is
resolved to the path with these components (`resolve_leads`).

A path is split into a group and a name at its last slash (`group_append_name`).  Referring to the name
inside the group names the path again for exactly the paths that `resolve_name_iff` describes.
-/

namespace Gamebook.Path

open Text (pieces joinWith trim pieces_cons pieces_append pieces_of_not_mem)

/-! ## Components -/

/-- A component of a path: not empty and without a slash. -/
def IsComponent (c : List Char) : Prop :=
  c ≠ [] ∧ '/' ∉ c

/-- A component that stands neither for the group itself nor for the group around it. -/
def IsName (c : List Char) : Prop :=
  IsComponent c ∧ c ≠ ['.'] ∧ c ≠ ['.', '.']

/-- The path with some components. -/
def ofComponents (cs : List (List Char)) : List Char :=
  joinWith ['/'] cs

/-- A path without slashes at its ends and without two slashes in succession. -/
structure IsStraight (path : List Char) : Prop where
  head : path.head? ≠ some '/'
  last : path.getLast? ≠ some '/'
  inside : ¬ ['/', '/'] <:+: path

theorem ofComponents_cons_cons (c d : List Char) (cs : List (List Char)) :
    ofComponents (c :: d :: cs) = c ++ '/' :: ofComponents (d :: cs) :=
  List.append_assoc _ _ _

theorem ofComponents_cons (c : List Char) {cs : List (List Char)} (h : cs ≠ []) :
    ofComponents (c :: cs) = c ++ '/' :: ofComponents cs := by
  cases cs with
  | nil => exact absurd rfl h
  | cons d cs => exact ofComponents_cons_cons c d cs

theorem ofComponents_append {as bs : List (List Char)} (ha : as ≠ []) (hb : bs ≠ []) :
    ofComponents (as ++ bs) = ofComponents as ++ '/' :: ofComponents bs := by
  induction as with
  | nil => exact absurd rfl ha
  | cons a as ih =>
    by_cases has : as = []
    · subst has
      exact ofComponents_cons a hb
    · rw [List.cons_append, ofComponents_cons a (by simp [has]), ih has, ofComponents_cons a has,
        List.append_assoc, List.cons_append]

theorem ofComponents_eq_nil_iff {cs : List (List Char)} (h : ∀ c ∈ cs, IsComponent c) :
    ofComponents cs = [] ↔ cs = [] := by
  constructor
  · intro hnil
    cases cs with
    | nil => rfl
    | cons c cs =>
      by_cases hcs : cs = []
      · subst hcs
        exact absurd hnil (h c List.mem_cons_self).1
      · rw [ofComponents_cons c hcs] at hnil
        simp at hnil
  · rintro rfl
    rfl

theorem pieces_ofComponents {cs : List (List Char)} (hne : cs ≠ []) (h : ∀ c ∈ cs, IsComponent c) :
    pieces '/' (ofComponents cs) = cs := by
  induction cs with
  | nil => exact absurd rfl hne
  | cons c cs ih =>
    obtain ⟨hc, hcs⟩ := List.forall_mem_cons.1 h
    by_cases hnil : cs = []
    · subst hnil
      exact pieces_of_not_mem hc.2
    · rw [ofComponents_cons c hnil, pieces_cons hc.2, ih hnil hcs]

theorem ofComponents_pieces (path : List Char) : ofComponents (pieces '/' path) = path := by
  induction path using Text.pieces_induction '/' with
  | single path h =>
    rw [pieces_of_not_mem h]
    rfl
  | more a b ha ih =>
    have hne : pieces '/' b ≠ [] := by
      obtain ⟨p, ps, hp, -⟩ := Text.exists_pieces_eq '/' b
      rw [hp]
      exact List.cons_ne_nil _ _
    rw [pieces_cons ha, ofComponents_cons a hne, ih]

/-- Between slashes at an end, or between two slashes in succession, there is an empty piece. -/
theorem isStraight_of_pieces {path : List Char} (h : [] ∉ pieces '/' path) : IsStraight path where
  head hhead := by
    obtain ⟨rest, rfl⟩ := List.head?_eq_some_iff.1 hhead
    exact h List.mem_cons_self
  last hlast := by
    obtain ⟨front, rfl⟩ := List.getLast?_eq_some_iff.1 hlast
    rw [pieces_append] at h
    exact h (List.mem_append_right _ List.mem_cons_self)
  inside := by
    rintro ⟨a, b, rfl⟩
    have hsplit : a ++ ['/', '/'] ++ b = a ++ '/' :: ([] ++ '/' :: b) := List.append_assoc a _ b
    rw [hsplit, pieces_append, pieces_append] at h
    exact h (List.mem_append_right _ List.mem_cons_self)

theorem isStraight_ofComponents {cs : List (List Char)} (h : ∀ c ∈ cs, IsComponent c) :
    IsStraight (ofComponents cs) := by
  by_cases hne : cs = []
  · subst hne
    exact ⟨nofun, nofun, by decide⟩
  · apply isStraight_of_pieces
    rw [pieces_ofComponents hne h]
    exact fun hmem => (h [] hmem).1 rfl

theorem components_append (a b : List Char) :
    components (a ++ '/' :: b) = components a ++ components b := by
  unfold components
  rw [pieces_append, List.filter_append]

theorem isComponent_of_mem_components {path c : List Char} (h : c ∈ components path) :
    IsComponent c := by
  obtain ⟨hmem, hne⟩ := List.mem_filter.1 h
  exact ⟨by simpa using hne, Text.not_mem_of_mem_pieces hmem⟩

theorem components_ofComponents {cs : List (List Char)} (h : ∀ c ∈ cs, IsComponent c) :
    components (ofComponents cs) = cs := by
  by_cases hne : cs = []
  · subst hne
    rfl
  · unfold components
    rw [pieces_ofComponents hne h, List.filter_eq_self]
    exact fun c hc => by simpa using (h c hc).1

/-! ## Slashes around a group -/

/-- Slashes contribute no components. -/
theorem components_slashes_append {slashes : List Char} (h : ∀ c ∈ slashes, c = '/')
    (path : List Char) : components (slashes ++ path) = components path := by
  induction slashes with
  | nil => rfl
  | cons c slashes ih =>
    obtain ⟨rfl, hslashes⟩ := List.forall_mem_cons.1 h
    exact (components_append [] _).trans (ih hslashes)

theorem components_append_slashes {slashes : List Char} (h : ∀ c ∈ slashes, c = '/')
    (path : List Char) : components (path ++ slashes) = components path := by
  cases slashes with
  | nil => rw [List.append_nil]
  | cons c slashes =>
    obtain ⟨rfl, hslashes⟩ := List.forall_mem_cons.1 h
    have hnone := components_slashes_append hslashes []
    rw [List.append_nil] at hnone
    rw [components_append, hnone]
    exact List.append_nil _

theorem exists_eq_trim (path : List Char) :
    ∃ a b, path = a ++ trim (· = '/') path ++ b ∧ (∀ c ∈ a, c = '/') ∧ ∀ c ∈ b, c = '/' := by
  have hslash : ∀ {cs : List Char}, ∀ c ∈ cs.takeWhile (· = '/'), c = '/' := by
    intro cs c hc
    simpa using List.mem_takeWhile_imp hc
  refine ⟨path.takeWhile (· = '/'),
    ((path.dropWhile (· = '/')).reverse.takeWhile (· = '/')).reverse, ?_, hslash,
    fun c hc => hslash c (List.mem_reverse.1 hc)⟩
  unfold trim
  rw [List.append_assoc, ← List.reverse_append, List.takeWhile_append_dropWhile,
    List.reverse_reverse, List.takeWhile_append_dropWhile]

theorem components_trim (path : List Char) :
    components (trim (· = '/') path) = components path := by
  obtain ⟨a, b, hpath, ha, hb⟩ := exists_eq_trim path
  have hcomponents := congrArg components hpath
  rw [components_append_slashes hb, components_slashes_append ha] at hcomponents
  exact hcomponents.symm

theorem dropWhile_slashes_append {slashes : List Char} (h : ∀ c ∈ slashes, c = '/')
    (path : List Char) : (slashes ++ path).dropWhile (· = '/') = path.dropWhile (· = '/') := by
  rw [List.dropWhile_append_of_pos]
  exact fun c hc => decide_eq_true (h c hc)

/-- Slashes around a path do not matter for what is left when they are removed. -/
theorem trim_slashes {a b : List Char} (ha : ∀ c ∈ a, c = '/') (hb : ∀ c ∈ b, c = '/')
    (path : List Char) : trim (· = '/') (a ++ path ++ b) = trim (· = '/') path := by
  have hend : ∀ cs : List Char, ((cs ++ b).reverse.dropWhile (· = '/')).reverse =
      (cs.reverse.dropWhile (· = '/')).reverse := by
    intro cs
    rw [List.reverse_append, dropWhile_slashes_append fun c hc => hb c (List.mem_reverse.1 hc)]
  unfold trim
  rw [List.append_assoc, dropWhile_slashes_append ha, List.dropWhile_append]
  split
  · next hnil =>
    rw [List.isEmpty_iff.1 hnil, ← List.nil_append (List.dropWhile _ b)]
    have hnone := dropWhile_slashes_append hb []
    rw [List.append_nil] at hnone
    rw [hnone]
    rfl
  · exact hend _

theorem length_trim_le (path : List Char) : (trim (· = '/') path).length ≤ path.length := by
  obtain ⟨a, b, hpath, -⟩ := exists_eq_trim path
  have hlength := congrArg List.length hpath
  simp only [List.length_append] at hlength
  omega

theorem trim_eq_self_iff {path : List Char} :
    trim (· = '/') path = path ↔ path.head? ≠ some '/' ∧ path.getLast? ≠ some '/' := by
  have hslash : ∀ c ∈ ['/'], c = '/' := fun c => List.mem_singleton.1
  have hnone : ∀ c ∈ ([] : List Char), c = '/' := List.forall_mem_nil _
  constructor
  · -- a slash at an end is removed, and what is left is shorter
    intro h
    constructor
    · intro hhead
      obtain ⟨rest, rfl⟩ := List.head?_eq_some_iff.1 hhead
      have htrim := trim_slashes hslash hnone rest
      rw [List.append_nil, List.singleton_append, h] at htrim
      have hle := length_trim_le rest
      rw [← htrim, List.length_cons] at hle
      omega
    · intro hlast
      obtain ⟨front, rfl⟩ := List.getLast?_eq_some_iff.1 hlast
      have htrim := trim_slashes hnone hslash front
      rw [List.nil_append, h] at htrim
      have hle := length_trim_le front
      rw [← htrim, List.length_append, List.length_singleton] at hle
      omega
  · rintro ⟨hhead, hlast⟩
    refine Text.trim_eq_self (fun c hc => ?_) fun c hc => ?_
    · exact decide_eq_false fun heq => hhead (heq ▸ hc)
    · exact decide_eq_false fun heq => hlast (heq ▸ hc)

/-- The form of a group without the slashes around it is the root, or has no empty piece. -/
def IsRegular (group : List Char) : Prop :=
  trim (· = '/') group = [] ∨ [] ∉ pieces '/' (trim (· = '/') group)

theorem IsRegular.trim_eq {group : List Char} (h : IsRegular group) :
    trim (· = '/') group = ofComponents (components group) := by
  rw [← components_trim]
  rcases h with h | h
  · rw [h]
    rfl
  · have hall : components (trim (· = '/') group) = pieces '/' (trim (· = '/') group) := by
      refine List.filter_eq_self.2 fun c hc => ?_
      have hne : c ≠ [] := fun hnil => h (hnil ▸ hc)
      simpa using hne
    rw [hall, ofComponents_pieces]

theorem join_ofComponents {as bs : List (List Char)} (ha : ∀ a ∈ as, IsComponent a)
    (hb : ∀ b ∈ bs, IsComponent b) :
    join (ofComponents as) (ofComponents bs) = ofComponents (as ++ bs) := by
  unfold join
  simp only [ofComponents_eq_nil_iff ha, ofComponents_eq_nil_iff hb]
  split
  · next hnil => rw [hnil, List.nil_append]
  · next has =>
    split
    · next hnil => rw [hnil, List.append_nil]
    · next hbs => exact (ofComponents_append has hbs).symm

/-! ## References -/

/-- `../` a number of times. -/
def ups : Nat → List Char
  | 0 => []
  | k + 1 => '.' :: '.' :: '/' :: ups k

/-- Where a reference leads in a group with some components.  Each `../` takes one of them away, as
long as there are any. -/
inductive Leads (parts : List (List Char)) : List Char → List (List Char) → Prop where
  | up (k : Nat) {tail : List (List Char)} (hne : tail ≠ []) (htail : ∀ c ∈ tail, IsName c) :
    Leads parts (ups k ++ ofComponents tail) (parts.take (parts.length - k) ++ tail)
  | here {tail : List (List Char)} (hne : tail ≠ []) (htail : ∀ c ∈ tail, IsName c) :
    Leads parts ('.' :: '/' :: ofComponents tail) (parts ++ tail)
  | absolute {tail : List (List Char)} (hne : tail ≠ []) (htail : ∀ c ∈ tail, IsName c) :
    Leads parts ('/' :: ofComponents tail) tail
  | parent (k : Nat) : Leads parts (ups (k + 1)) (parts.take (parts.length - (k + 1)))
  | parentDot (k : Nat) :
    Leads parts (ups (k + 1) ++ ['.']) (parts.take (parts.length - (k + 1)))
  | dot : Leads parts ['.'] parts
  | dotSlash : Leads parts ['.', '/'] parts

theorem climbs_ups (k : Nat) (rest : List Char) :
    climbs (ups k ++ rest) = ((climbs rest).1 + k, (climbs rest).2) := by
  induction k with
  | zero => rfl
  | succ k ih =>
    show climbs ('.' :: '.' :: '/' :: (ups k ++ rest)) = _
    rw [climbs, ih]
    rfl

/-- A reference that begins with `../` climbs. -/
theorem follow_ups (k : Nat) (rest group : List Char) :
    follow (ups (k + 1) ++ rest) group = climb (ups (k + 1) ++ rest) (trim (· = '/') group) := rfl

theorem climb_ups {k : Nat} {rest group : List Char} (h : climbs rest = (0, rest)) :
    climb (ups k ++ rest) (trim (· = '/') group) =
      ofComponents (if rest = ['.']
        then (components group).take ((components group).length - k)
        else (components group).take ((components group).length - k) ++ components rest) := by
  unfold climb
  rw [climbs_ups, h, components_trim, Nat.zero_add]
  rfl

section

variable {tail : List (List Char)} (hne : tail ≠ []) (htail : ∀ c ∈ tail, IsName c)
include hne htail

/-- Names do not begin like a reference of another form. -/
theorem not_marked (rest : List Char) :
    ofComponents tail ≠ [] ∧ ofComponents tail ≠ '/' :: rest ∧ ofComponents tail ≠ ['.'] ∧
      ofComponents tail ≠ '.' :: '/' :: rest ∧ ofComponents tail ≠ '.' :: '.' :: '/' :: rest := by
  have hpieces := pieces_ofComponents hne fun c hc => (htail c hc).1
  obtain ⟨c, cs, rfl⟩ := List.exists_cons_of_ne_nil hne
  obtain ⟨⟨⟨hnil, -⟩, hdot, hdots⟩, -⟩ := List.forall_mem_cons.1 htail
  refine ⟨?_, ?_, ?_, ?_, ?_⟩ <;> intro heq <;> rw [heq] at hpieces
  · exact hnil (List.cons.inj hpieces).1.symm
  · exact hnil (List.cons.inj hpieces).1.symm
  · exact hdot (List.cons.inj hpieces).1.symm
  · exact hdot (List.cons.inj hpieces).1.symm
  · exact hdots (List.cons.inj hpieces).1.symm

theorem climbs_names : climbs (ofComponents tail) = (0, ofComponents tail) := by
  unfold climbs
  split
  · next rest heq => exact absurd heq (not_marked hne htail rest).2.2.2.2
  · rfl

theorem follow_names (group : List Char) :
    follow (ofComponents tail) group = join (trim (· = '/') group) (ofComponents tail) := by
  unfold follow
  split
  · next heq => exact absurd heq (not_marked hne htail []).1
  · next rest heq => exact absurd heq (not_marked hne htail rest).2.1
  · next heq => exact absurd heq (not_marked hne htail []).2.2.1
  · next rest heq => exact absurd heq (not_marked hne htail rest).2.2.2.1
  · next rest heq => exact absurd heq (not_marked hne htail rest).2.2.2.2
  · rfl

end

theorem join_nil (group : List Char) : join group [] = group := by
  unfold join
  split
  · next h => exact h.symm
  · rfl

/-- A reference is followed to the path with the components that it leads to. -/
theorem follow_leads {group reference : List Char} {path : List (List Char)}
    (hgroup : IsRegular group) (h : Leads (components group) reference path) :
    follow reference group = ofComponents path := by
  have hparts : ∀ c ∈ components group, IsComponent c := fun _ => isComponent_of_mem_components
  have inside : ∀ {tail : List (List Char)}, (∀ c ∈ tail, IsName c) →
      join (trim (· = '/') group) (ofComponents tail) =
        ofComponents (components group ++ tail) := by
    intro tail htail
    rw [hgroup.trim_eq, join_ofComponents hparts fun c hc => (htail c hc).1]
  cases h with
  | @up k tail hne htail =>
    cases k with
    | zero =>
      show follow (ofComponents tail) group = _
      rw [follow_names hne htail, inside htail, Nat.sub_zero, List.take_length]
    | succ k =>
      have hdot := (not_marked hne htail []).2.2.1
      rw [follow_ups, climb_ups (climbs_names hne htail), if_neg hdot,
        components_ofComponents fun c hc => (htail c hc).1]
  | here hne htail => exact inside htail
  | absolute hne htail => rfl
  | parent k =>
    have hups := follow_ups k [] group
    have hend : climbs ([] : List Char) = (0, []) := rfl
    rw [climb_ups hend, List.append_nil] at hups
    rw [hups, if_neg (by simp)]
    exact congrArg ofComponents (List.append_nil _)
  | parentDot k =>
    have hdot : climbs ['.'] = (0, ['.']) := rfl
    rw [follow_ups, climb_ups hdot, if_pos rfl]
  | dot => exact hgroup.trim_eq
  | dotSlash => exact (join_nil _).trans hgroup.trim_eq

theorem Leads.isComponent {parts path : List (List Char)} {reference : List Char}
    (h : Leads parts reference path) (hparts : ∀ c ∈ parts, IsComponent c) :
    ∀ c ∈ path, IsComponent c := by
  have htake : ∀ n, ∀ c ∈ parts.take n, IsComponent c := fun n c hc =>
    hparts c (List.mem_of_mem_take hc)
  cases h with
  | up k hne htail => exact List.forall_mem_append.2 ⟨htake _, fun c hc => (htail c hc).1⟩
  | here hne htail => exact List.forall_mem_append.2 ⟨hparts, fun c hc => (htail c hc).1⟩
  | absolute hne htail => exact fun c hc => (htail c hc).1
  | parent k => exact htake _
  | parentDot k => exact htake _
  | dot => exact hparts
  | dotSlash => exact hparts

/-- Slashes around a group do not matter to the references in it. -/
theorem resolve_slashes (reference group : String) (m n : Nat) :
    resolve reference (String.ofList (List.replicate m '/' ++ group.toList ++
      List.replicate n '/')) = resolve reference group := by
  have htrim : trim (· = '/') (List.replicate m '/' ++ group.toList ++ List.replicate n '/') =
      trim (· = '/') group.toList :=
    trim_slashes (fun _ => List.eq_of_mem_replicate) (fun _ => List.eq_of_mem_replicate) _
  unfold resolve follow
  rw [String.toList_ofList, htrim]

/-- A reference is resolved to the path with the components that it leads to, whatever slashes there
are around the group, so that the path has no stray slashes.  An absolute reference does not depend on
the group at all. -/
theorem resolve_leads {reference group : String} {path : List (List Char)}
    (hgroup : IsRegular group.toList) (h : Leads (components group.toList) reference.toList path) :
    (resolve reference group).toList = ofComponents path ∧
    (∀ c ∈ path, IsComponent c) ∧ IsStraight (resolve reference group).toList ∧
    (∀ m n, resolve reference (String.ofList (List.replicate m '/' ++ group.toList ++
      List.replicate n '/')) = resolve reference group) ∧
    ∀ tail other : String, resolve ("/" ++ tail) other = tail := by
  have hpath := h.isComponent fun _ => isComponent_of_mem_components
  have hresolve : (resolve reference group).toList = ofComponents path := by
    rw [resolve, String.toList_ofList, follow_leads hgroup h]
  refine ⟨hresolve, hpath, ?_, resolve_slashes reference group, fun tail other => ?_⟩
  · rw [hresolve]
    exact isStraight_ofComponents hpath
  · rw [resolve, String.toList_append]
    exact String.ofList_toList

/-- A reference with more steps up than the group has components. -/
theorem resolve_leads_chapters :
    IsRegular "/chapters/intro//".toList ∧
    Leads (components "/chapters/intro//".toList) "../../../main/battle".toList
      ["main".toList, "battle".toList] ∧
    (resolve "../../../main/battle" "/chapters/intro//").toList =
      ofComponents ["main".toList, "battle".toList] ∧
    (∀ c ∈ ["main".toList, "battle".toList], IsComponent c) ∧
    IsStraight (resolve "../../../main/battle" "/chapters/intro//").toList ∧
    (∀ m n, resolve "../../../main/battle" (String.ofList (List.replicate m '/' ++
      "/chapters/intro//".toList ++ List.replicate n '/')) =
        resolve "../../../main/battle" "/chapters/intro//") ∧
    ∀ tail other : String, resolve ("/" ++ tail) other = tail := by
  have hgroup : IsRegular "/chapters/intro//".toList := .inr (by decide)
  have hnames : ∀ c ∈ ["main".toList, "battle".toList], IsName c := by
    unfold IsName IsComponent
    decide
  have hleads : Leads (components "/chapters/intro//".toList) "../../../main/battle".toList
      ["main".toList, "battle".toList] := Leads.up 3 (List.cons_ne_nil _ _) hnames
  exact ⟨hgroup, hleads, resolve_leads hgroup hleads⟩

/-! ## Names -/

theorem splitLast_of_not_mem {path : List Char} (h : '/' ∉ path) : splitLast path = ([], path) := by
  have hdrop : path.reverse.dropWhile (· != '/') = [] := by
    rw [List.dropWhile_eq_nil_iff]
    intro c hc
    simpa using fun heq : c = '/' => h (heq ▸ List.mem_reverse.1 hc)
  unfold splitLast
  rw [hdrop]

theorem splitLast_append {name : List Char} (h : '/' ∉ name) (group : List Char) :
    splitLast (group ++ '/' :: name) = (group, name) := by
  have hname : ∀ c ∈ name.reverse, (c != '/') = true := by
    intro c hc
    simpa using fun heq : c = '/' => h (heq ▸ List.mem_reverse.1 hc)
  have hreverse : (group ++ '/' :: name).reverse = name.reverse ++ '/' :: group.reverse := by simp
  unfold splitLast
  rw [hreverse, List.dropWhile_append_of_pos hname, List.takeWhile_append_of_pos hname]
  simp

theorem exists_last_slash {path : List Char} (h : '/' ∈ path) :
    ∃ group name, path = group ++ '/' :: name ∧ '/' ∉ name := by
  obtain ⟨a, b, hsplit, ha⟩ := List.eq_append_cons_of_mem (List.mem_reverse.2 h)
  refine ⟨b.reverse, a.reverse, ?_, fun hmem => ha (List.mem_reverse.1 hmem)⟩
  rw [← List.reverse_reverse path, hsplit]
  simp

/-- A path without a slash is in the group with the empty path. -/
theorem group_of_not_mem {path : String} (h : '/' ∉ path.toList) :
    group path = "" ∧ name path = path := by
  unfold group name
  rw [splitLast_of_not_mem h]
  exact ⟨rfl, String.ofList_toList⟩

/-- Any other path is its group, a slash and its name, which has no slash. -/
theorem group_append_name {path : String} (h : '/' ∈ path.toList) :
    group path ++ "/" ++ name path = path ∧ '/' ∉ (name path).toList := by
  obtain ⟨front, last, hpath, hlast⟩ := exists_last_slash h
  unfold group name
  rw [hpath, splitLast_append hlast]
  refine ⟨?_, by rwa [String.toList_ofList]⟩
  rw [← String.toList_inj, hpath]
  simp only [String.toList_append, String.toList_ofList, String.reduceToList, List.append_assoc,
    List.cons_append, List.nil_append]

example : group "chapters/intro/gate" = "chapters/intro" ∧ name "chapters/intro/gate" = "gate" :=
  ⟨rfl, rfl⟩

/-- A name is a reference to the node with the name, unless it is empty or the mark for the group. -/
theorem follow_of_not_mem {name : List Char} (h : '/' ∉ name) (hne : name ≠ [])
    (hdot : name ≠ ['.']) (group : List Char) :
    follow name group = join (trim (· = '/') group) name := by
  unfold follow
  split
  · exact absurd rfl hne
  · exact absurd List.mem_cons_self h
  · exact absurd rfl hdot
  · simp at h
  · simp at h
  · rfl

/-- A name that stands behind a slash leads back if it is a reference to a node, and the group is not
empty and has no slashes at its ends. -/
theorem follow_name_eq_iff {name : List Char} (h : '/' ∉ name) (group : List Char) :
    follow name group = group ++ '/' :: name ↔
      name ≠ [] ∧ name ≠ ['.'] ∧ group ≠ [] ∧ group.head? ≠ some '/' ∧
        group.getLast? ≠ some '/' := by
  have hshort := length_trim_le group
  have hlonger : ∀ cs : List Char, cs.length ≤ group.length → cs ≠ group ++ '/' :: name := by
    rintro cs hcs rfl
    simp only [List.length_append, List.length_cons] at hcs
    omega
  rcases eq_or_ne name [] with rfl | hne
  · exact iff_of_false (hlonger [] (Nat.zero_le _)) fun hand => hand.1 rfl
  rcases eq_or_ne name ['.'] with rfl | hdot
  · exact iff_of_false (hlonger _ hshort) fun hand => hand.2.1 rfl
  rw [follow_of_not_mem h hne hdot, ← trim_eq_self_iff]
  unfold join
  rw [if_neg hne]
  by_cases htrim : trim (· = '/') group = []
  · rw [if_pos htrim]
    refine iff_of_false (fun heq => ?_) fun hand => hand.2.2.1 (hand.2.2.2 ▸ htrim)
    have hlength := congrArg List.length heq
    simp only [List.length_append, List.length_cons] at hlength
    omega
  · rw [if_neg htrim, List.append_cancel_right_eq]
    constructor
    · exact fun heq => ⟨hne, hdot, heq ▸ htrim, heq⟩
    · exact fun hand => hand.2.2.2

theorem follow_splitLast_iff (path : List Char) :
    follow (splitLast path).2 (splitLast path).1 = path ↔
      path = [] ∨ (splitLast path).2 ≠ [] ∧ (splitLast path).2 ≠ ['.'] ∧
        ('/' ∉ path ∨ (splitLast path).1 ≠ [] ∧ (splitLast path).1.head? ≠ some '/' ∧
          (splitLast path).1.getLast? ≠ some '/') := by
  by_cases hslash : '/' ∈ path
  · obtain ⟨group, name, rfl, hname⟩ := exists_last_slash hslash
    rw [splitLast_append hname, follow_name_eq_iff hname]
    simp
  · rw [splitLast_of_not_mem hslash]
    rcases eq_or_ne path [] with rfl | hne
    · exact iff_of_true rfl (.inl rfl)
    rcases eq_or_ne path ['.'] with rfl | hdot
    · exact iff_of_false (by decide) (by simp)
    rw [follow_of_not_mem hslash hne hdot]
    exact iff_of_true rfl (.inr ⟨hne, hdot, .inl hslash⟩)

/-- Referring to the name of a path inside its group names the path for exactly these paths. -/
theorem resolve_name_iff (path : String) :
    resolve (name path) (group path) = path ↔
      path = "" ∨ name path ≠ "" ∧ name path ≠ "." ∧
        ('/' ∉ path.toList ∨ group path ≠ "" ∧ (group path).toList.head? ≠ some '/' ∧
          (group path).toList.getLast? ≠ some '/') := by
  have hiff := follow_splitLast_iff path.toList
  have hofList : ∀ (cs : List Char) (s : String), String.ofList cs = s ↔ cs = s.toList :=
    fun cs s => by rw [← String.toList_inj, String.toList_ofList]
  have hempty : path = "" ↔ path.toList = "".toList := String.toList_inj.symm
  unfold resolve name group
  simp only [String.toList_ofList, hofList, hempty, Ne]
  exact hiff

end Gamebook.Path
