import Gamebook.Story
import Gamebook.Effect.Apply
import Mathlib.Data.List.Nodup

/-!
# Gotos inside effects

Effects nest, so a goto has a position: the numbers of the members on the way to it, where the
member of a conditional effect has number zero.  `gotoSites` lists the gotos of an effect with
their positions, each once (`mem_gotoSites_iff`, `nodup_gotoSites`); without the positions it is
the list that the validator walks through (`map_snd_gotoSites`).  The effects of a choice are
numbered like the members of a random effect.
-/

namespace Gamebook

/-- The members of a list are the first one, with number zero, and the others. -/
theorem exists_member_cons_iff {α : Type} {P : Nat → α → Prop} {a : α} {as : List α} :
    (∃ k b, (a :: as)[k]? = some b ∧ P k b) ↔ P 0 a ∨ ∃ k b, as[k]? = some b ∧ P (k + 1) b := by
  constructor
  · rintro ⟨k, b, hb, h⟩
    cases k with
    | zero =>
      cases hb
      exact .inl h
    | succ k => exact .inr ⟨k, b, hb, h⟩
  · rintro (h | ⟨k, b, hb, h⟩)
    · exact ⟨0, a, rfl, h⟩
    · exact ⟨k + 1, b, hb, h⟩

namespace Effect

/-! ## Positions -/

/-- The effect at a position inside an effect. -/
def part? : (position : List Nat) → Effect → Option Effect
  | [], e => some e
  | i :: position, .oneOf members => members[i]?.bind (part? position)
  | 0 :: position, .provided _ member => part? position member
  | _ :: _, _ => none

mutual

/-- The gotos in an effect, with their positions and targets, in order. -/
def gotoSites : Effect → List (List Nat × String)
  | .goto target => [([], target)]
  | .oneOf members => gotoSitesFrom 0 members
  | .provided _ member => (gotoSites member).map fun site => (0 :: site.1, site.2)
  | _ => []

/-- The gotos in several effects, the first of which has a given number. -/
def gotoSitesFrom : (number : Nat) → List Effect → List (List Nat × String)
  | _, [] => []
  | i, e :: es =>
    (gotoSites e).map (fun site => (i :: site.1, site.2)) ++ gotoSitesFrom (i + 1) es

end

mutual

theorem map_snd_gotoSites : (e : Effect) → (gotoSites e).map Prod.snd = gotos e
  | .goto target => rfl
  | .oneOf members => map_snd_gotoSitesFrom 0 members
  | .provided _ member => by
    rw [gotoSites, gotos, List.map_map, ← map_snd_gotoSites member]
    rfl
  | .setFlag .. | .addResource .. | .multiplyResource .. | .setResource .. | .setVariable ..
  | .verbatim _ => by simp [gotoSites, gotos]

theorem map_snd_gotoSitesFrom :
    (i : Nat) → (es : List Effect) → (gotoSitesFrom i es).map Prod.snd = gotosOfAll es
  | _, [] => rfl
  | i, e :: es => by
    rw [gotoSitesFrom, gotosOfAll, List.map_append, List.map_map, ← map_snd_gotoSites e,
      ← map_snd_gotoSitesFrom (i + 1) es]
    rfl

end

mutual

/-- The sites of an effect are its positions that hold a goto. -/
theorem mem_gotoSites_iff : (e : Effect) → (position : List Nat) → (target : String) →
    ((position, target) ∈ gotoSites e ↔ part? position e = some (.goto target))
  | .goto _, [], _ => by simp [gotoSites, part?, eq_comm]
  | .goto _, _ :: _, _ => by simp [gotoSites, part?]
  | .oneOf members, position, target => by
    rw [gotoSites, mem_gotoSitesFrom_iff]
    cases position with
    | nil => simp [part?]
    | cons i position =>
      rw [part?, Option.bind_eq_some_iff]
      constructor
      · rintro ⟨k, e, he, rest, heq, hpart⟩
        rw [Nat.zero_add] at heq
        obtain ⟨rfl, rfl⟩ := List.cons.inj heq
        exact ⟨e, he, hpart⟩
      · rintro ⟨e, he, hpart⟩
        exact ⟨i, e, he, position, by rw [Nat.zero_add], hpart⟩
  | .provided condition member, position, target => by
    rw [gotoSites, List.mem_map]
    cases position with
    | nil => simp [part?]
    | cons i position =>
      cases i with
      | zero => simp [part?, ← mem_gotoSites_iff member]
      | succ i => simp [part?]
  | .setFlag .., [], _ | .addResource .., [], _ | .multiplyResource .., [], _
  | .setResource .., [], _ | .setVariable .., [], _ | .verbatim _, [], _ => by
    simp [gotoSites, part?]
  | .setFlag .., _ :: _, _ | .addResource .., _ :: _, _ | .multiplyResource .., _ :: _, _
  | .setResource .., _ :: _, _ | .setVariable .., _ :: _, _ | .verbatim _, _ :: _, _ => by
    simp [gotoSites, part?]

theorem mem_gotoSitesFrom_iff : (i : Nat) → (es : List Effect) → (position : List Nat) →
    (target : String) →
    ((position, target) ∈ gotoSitesFrom i es ↔
      ∃ k e, es[k]? = some e ∧ ∃ rest, position = (i + k) :: rest ∧
        part? rest e = some (.goto target))
  | _, [], _, _ => by simp [gotoSitesFrom]
  | i, e :: es, position, target => by
    rw [gotoSitesFrom, List.mem_append, List.mem_map, mem_gotoSitesFrom_iff (i + 1) es,
      exists_member_cons_iff]
    simp only [Nat.add_zero, Nat.add_assoc, Nat.add_comm 1]
    refine or_congr_left ⟨?_, ?_⟩
    · rintro ⟨⟨rest, target'⟩, hsite, heq⟩
      obtain ⟨rfl, rfl⟩ := Prod.mk.inj heq
      exact ⟨rest, rfl, (mem_gotoSites_iff e rest target').1 hsite⟩
    · rintro ⟨rest, rfl, hpart⟩
      exact ⟨(rest, target), (mem_gotoSites_iff e rest target).2 hpart, rfl⟩

end

theorem injective_cons_site (i : Nat) :
    Function.Injective fun site : List Nat × String => (i :: site.1, site.2) := by
  intro a b h
  simpa [Prod.ext_iff] using h

mutual

theorem nodup_gotoSites : (e : Effect) → (gotoSites e).Nodup
  | .goto target => by simp [gotoSites]
  | .oneOf members => nodup_gotoSitesFrom 0 members
  | .provided _ member => by
    rw [gotoSites]
    exact (nodup_gotoSites member).map (injective_cons_site 0)
  | .setFlag .. | .addResource .. | .multiplyResource .. | .setResource .. | .setVariable ..
  | .verbatim _ => by simp [gotoSites]

theorem nodup_gotoSitesFrom : (i : Nat) → (es : List Effect) → (gotoSitesFrom i es).Nodup
  | _, [] => .nil
  | i, e :: es => by
    rw [gotoSitesFrom, List.nodup_append]
    refine ⟨(nodup_gotoSites e).map (injective_cons_site i), nodup_gotoSitesFrom (i + 1) es, ?_⟩
    -- the positions of the first effect begin with another number than the others
    rintro _ ha ⟨position, target⟩ hb rfl
    obtain ⟨site, -, hsite⟩ := List.mem_map.1 ha
    obtain ⟨k, e', -, rest, hposition, -⟩ := (mem_gotoSitesFrom_iff _ es _ _).1 hb
    have hhead := (List.cons.inj ((Prod.mk.inj hsite).1.trans hposition)).1
    omega

end

end Effect

end Gamebook
