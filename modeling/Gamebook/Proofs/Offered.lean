import Gamebook.Proofs.Short

/-!
# Whether offered choices can be taken

In an accepted story a choice that is available is the one that its id takes, so a turn on it fails only
if the choice is stuck: it calculates with an integer that is out of range and a floating point number,
or has to write a number that is too long.  The former can come about from numbers that are all in range
(`Story.forge_not_taken`).

It cannot if the story does not mix the two kinds of numbers under one key (`Story.Unmixed`), which is
read off its initial resources and its effects: along a run, the amount of a resource is of the same
kind as the numbers that the story has for it, unless it is still zero (`Story.Sorted`).  If the numbers
of the story can be written too (`Story.Short`), every offered choice can be taken
(`Story.offered_choice_taken`).
-/

namespace Gamebook

/-- Whether a number is an integer by its kind. -/
def Number.isWhole : Number → Bool
  | .int _ => true
  | .float _ => false

namespace Number

variable {a b n : Number} {onInt : Int → Int → Int} {onFloat : Binary64 → Binary64 → Binary64}

/-- The result of an operation is an integer exactly if both numbers are. -/
theorem isWhole_combine (h : combine onInt onFloat a b = .ok n) :
    n.isWhole = (a.isWhole && b.isWhole) := by
  cases a with
  | int x =>
    cases b with
    | int y =>
      cases h
      rfl
    | float y =>
      obtain ⟨x', -, h⟩ := bind_eq_ok_iff.1 h
      cases h
      rfl
  | float x =>
    obtain ⟨x', -, h⟩ := bind_eq_ok_iff.1 h
    obtain ⟨y', -, h⟩ := bind_eq_ok_iff.1 h
    cases h
    rfl

/-- Numbers that clash are of different kinds, and neither is zero. -/
theorem Clash.kinds (h : Clash a b) : a.isWhole ≠ b.isWhole ∧ a ≠ 0 := by
  cases a with
  | int m =>
    cases b with
    | int n => exact h.elim
    | float y =>
      refine ⟨Bool.noConfusion, ?_⟩
      intro hzero
      obtain rfl : m = 0 := Number.int.inj hzero
      have hin : (Binary64.ofInt? 0).isSome := by decide +kernel
      rw [show Binary64.ofInt? 0 = none from h] at hin
      cases hin
  | float x =>
    cases b with
    | int n => exact ⟨Bool.noConfusion, Number.noConfusion⟩
    | float y => exact h.elim

end Number

/-! ## The numbers of a story -/

namespace Effect

mutual

/-- The numbers of an effect that change resources, at any depth, with the keys. -/
def amounts : Effect → List (String × Number)
  | .addResource key n | .multiplyResource key n | .setResource key n => [(key, n)]
  | .oneOf members => amountsOfAll members
  | .provided _ member => amounts member
  | _ => []

/-- The numbers of several effects. -/
def amountsOfAll : List Effect → List (String × Number)
  | [] => []
  | e :: es => amounts e ++ amountsOfAll es

end

variable {e part : Effect} {es : List Effect} {s t : State}

theorem amounts_subset_amountsOfAll (he : e ∈ es) : amounts e ⊆ amountsOfAll es := by
  induction es with
  | nil => cases he
  | cons e' es ih =>
    rw [amountsOfAll]
    rcases List.mem_cons.1 he with rfl | he
    · exact List.subset_append_left _ _
    · exact List.subset_append_of_subset_right _ (ih he)

theorem amounts_part : (position : List Nat) → (e : Effect) → part? position e = some part →
    amounts part ⊆ amounts e
  | [], e, h => by
    rw [part?, Option.some.injEq] at h
    rw [h]
    exact List.Subset.refl _
  | i :: position, .oneOf members, h => by
    obtain ⟨e, he, hpart⟩ := Option.bind_eq_some_iff.1 h
    have hmember := amounts_subset_amountsOfAll (List.mem_of_getElem? he)
    exact List.Subset.trans (amounts_part position e hpart) hmember
  | 0 :: position, .provided _ member, h => amounts_part position member h
  | (_ + 1) :: _, .provided .., h => by cases h
  | _ :: _, .setFlag .., h | _ :: _, .addResource .., h | _ :: _, .multiplyResource .., h
  | _ :: _, .setResource .., h | _ :: _, .setVariable .., h | _ :: _, .goto _, h
  | _ :: _, .verbatim _, h => by cases h

end Effect

namespace Story

/-- The numbers that a story has for resources: the ones that they start with, and those of its
effects. -/
def amounts (story : Story) : List (String × Number) :=
  story.resources.entries ++
    story.nodes.entries.flatMap fun entry => entry.2.choices.flatMap fun c =>
      Effect.amountsOfAll c.effects

/-- The numbers for a resource are all integers or all floating point numbers. -/
def Unmixed (story : Story) : Prop :=
  ∀ a ∈ story.amounts, ∀ b ∈ story.amounts, a.1 = b.1 → a.2.isWhole = b.2.isWhole

instance (story : Story) : Decidable story.Unmixed :=
  inferInstanceAs (Decidable (∀ a ∈ story.amounts, ∀ b ∈ story.amounts, _ → _))

/-- Every amount is zero or of the kind of the numbers that the story has for the resource. -/
def Sorted (story : Story) (s : State) : Prop :=
  ∀ key, (s.resource key).amount = 0 ∨
    ∀ n, (key, n) ∈ story.amounts → (s.resource key).amount.isWhole = n.isWhole

variable {story : Story} {allowCycles : Bool} {s t : Session} {a b : State} {c : Choice}
  {available : List Choice} {dice : Dice} {e : Effect}

theorem HasEffect.amounts (h : story.HasEffect e) : e.amounts ⊆ story.amounts := by
  obtain ⟨path, node, c, hnode, hc, position, hpart⟩ := h
  intro entry hentry
  refine List.mem_append_right _ (List.mem_flatMap.2 ⟨_, Table.get?_eq_some_iff.1 hnode, ?_⟩)
  exact List.mem_flatMap.2 ⟨c, hc, Effect.amounts_part position _ hpart hentry⟩

/-! ## Kinds along a run -/

theorem sorted_begin (h : story.Unmixed) : story.Sorted (story.begin {}).toState := by
  intro key
  have hresource : (story.begin {}).toState.resource key =
      ((story.resources.get? key).map Quantity.number).getD 0 :=
    congrArg (·.getD 0) (Table.get?_mapWithKey (fun _ => Quantity.number) story.resources key)
  rw [hresource]
  cases hkey : story.resources.get? key with
  | none => exact .inl rfl
  | some m =>
    have hm : (key, m) ∈ story.amounts := List.mem_append_left _ (Table.get?_eq_some_iff.1 hkey)
    exact .inr fun n hn => h _ hm _ hn rfl

theorem resource_put (s : State) (key : String) (q : Quantity) (other : String) :
    State.resource { s with resources := s.resources.put key q } other =
      if other = key then q else s.resource other := by
  unfold State.resource
  rw [Table.get?_put]
  split <;> rfl

/-- A resource keeps its kind if it gets an amount of the kind of some number that the story has for
it. -/
theorem Sorted.put (hs : story.Sorted a) (h : story.Unmixed) {key : String} {m amount : Number}
    (hm : (key, m) ∈ story.amounts) (hkind : amount.isWhole = m.isWhole) :
    story.Sorted { a with resources := a.resources.put key (.number amount) } := by
  intro other
  rw [resource_put]
  by_cases hother : other = key
  · rw [if_pos hother]
    exact .inr fun n hn => hkind.trans (h _ hm _ hn hother.symm)
  · rw [if_neg hother]
    exact hs other

/-- A calculation with an amount and a number for the same resource gives the kind of the number. -/
theorem Sorted.isWhole_combine (hs : story.Sorted a) {key : String} {m amount : Number}
    (hm : (key, m) ∈ story.amounts) {onInt : Int → Int → Int}
    {onFloat : Binary64 → Binary64 → Binary64}
    (h : Number.combine onInt onFloat (a.resource key).amount m = .ok amount) :
    amount.isWhole = m.isWhole := by
  have hresult := Number.isWhole_combine h
  rcases hs key with hzero | hkind
  · rw [hzero] at hresult
    exact hresult
  · rw [hkind m hm, Bool.and_self] at hresult
    exact hresult

theorem Sorted.write (hs : story.Sorted a) (h : story.Unmixed) (he : story.HasEffect e)
    (hwrite : e.Write a b) : story.Sorted b := by
  have hamounts := he.amounts
  cases hwrite with
  | setFlag => exact hs
  | setVariable => exact hs
  | setResource => exact hs.put h (hamounts List.mem_cons_self) rfl
  | addResource sum =>
    have hm := hamounts List.mem_cons_self
    exact hs.put h hm (hs.isWhole_combine hm sum)
  | multiplyResource product =>
    have hm := hamounts List.mem_cons_self
    exact hs.put h hm (hs.isWhole_combine hm product)

theorem Sorted.writes (hs : story.Sorted a) (h : story.Unmixed)
    (hparts : ∀ part, Effect.PartOfAny part c.effects → story.HasEffect part)
    (hwrites : Relation.ReflTransGen (Effect.WritesOfAll c.effects) a b) : story.Sorted b := by
  induction hwrites with
  | refl => exact hs
  | tail _ hwrite ih =>
    obtain ⟨e, he, position, part, hpart, hwrite⟩ := hwrite
    exact ih.write h (hparts part ⟨e, he, position, hpart⟩) hwrite

/-- The parts of the choices of a node are effects of the story. -/
theorem hasEffect_of_partOfAny {path : String} {node : Node} (hnode : story.node? path = some node)
    (hc : c ∈ node.choices) {part : Effect} (hpart : Effect.PartOfAny part c.effects) :
    story.HasEffect part :=
  ⟨path, node, c, hnode, hc, hpart.partOf⟩

theorem Sorted.turn {asked : Datum} (hs : story.Sorted s.toState) (h : story.Unmixed)
    (hturn : (story.turn s asked dice).result = .ok t) : story.Sorted t.toState := by
  obtain ⟨node, c, hnode, hc, written, hwrites, ht⟩ := turn_writes hturn
  have hwritten : story.Sorted written :=
    hs.writes h (fun _ => hasEffect_of_partOfAny hnode hc) hwrites
  rw [ht]
  exact hwritten

/-- Numbers of one kind do not clash, so an effect is blocked only by a number that is too long. -/
theorem Sorted.tooLong_of_blocked (hs : story.Sorted a) (he : story.HasEffect e) {error : RangeError}
    (h : Effect.Blocked a error e) : error = .tooLong := by
  have hamounts := he.amounts
  cases h with
  | addResource clash | multiplyResource clash =>
    obtain ⟨hkinds, hzero⟩ := clash.kinds
    rcases hs _ with h | h
    · exact absurd h hzero
    · exact absurd (h _ (hamounts List.mem_cons_self)) hkinds
  | @provided condition _ _ hevaluate =>
    have hgives := condition.gives_evaluate a
    rw [hevaluate] at hgives
    exact hgives.1
  | oneOf => rfl

/-- A choice of a node is stuck only for a number that is too long. -/
theorem Sorted.tooLong_of_stuck (hs : story.Sorted s.toState) (h : story.Unmixed) {node : Node}
    (hnode : story.node? s.node = some node) (hc : c ∈ node.choices) {error : RangeError}
    (hstuck : Stuck s c error) : error = .tooLong := by
  obtain ⟨reached, part, hwrites, hpart, hblocked⟩ := hstuck
  have hreached := hs.writes h (fun _ => hasEffect_of_partOfAny hnode hc) hwrites
  exact hreached.tooLong_of_blocked (hasEffect_of_partOfAny hnode hc hpart) hblocked

/-! ## Offered choices -/

/-- The choice that is offered is the one that its id takes. -/
theorem Accepted.chosen_of_available (h : story.Accepted allowCycles)
    (havailable : story.available s = .ok available) (hc : c ∈ available) :
    story.chosen s (.text c.id) = .ok c := by
  obtain ⟨node, hnode, hmem, -⟩ := (mem_available_iff havailable).1 hc
  obtain ⟨before, after, hchoices⟩ := List.append_of_mem hmem
  have hbefore : ∀ b ∈ before, b.id ≠ c.id := by
    have hnodup := h.nodup_ids hnode
    rw [hchoices, List.map_append, List.map_cons] at hnodup
    intro b hb
    exact (List.nodup_append.1 hnodup).2.2 _ (List.mem_map_of_mem hb) _ List.mem_cons_self
  have hasked := Node.asked?_eq_some_iff.2 ⟨rfl, before, after, hchoices, hbefore⟩
  have hat : availableAt node s.toState = .ok available := by
    unfold Story.available at havailable
    rwa [hnode] at havailable
  exact chosen_eq_ok_iff.2 ⟨node, available, hnode, hat, hasked, c, hc, rfl⟩

/-- A choice that is offered is taken, unless it is stuck. -/
theorem Accepted.taken_or_stuck (h : story.Accepted allowCycles)
    (havailable : story.available s = .ok available) (hc : c ∈ available) (dice : Dice) :
    (∃ t, (story.turn s (.text c.id) dice).result = .ok t) ∨
      ∃ e, (story.turn s (.text c.id) dice).result = .error (.range e) ∧ Stuck s c e := by
  rw [turn_of_chosen (h.chosen_of_available havailable hc)]
  cases ht : (story.take s c dice).result with
  | ok t => exact .inl ⟨t, rfl⟩
  | error error =>
    obtain ⟨e, rfl, hstuck⟩ := stuck_of_take ht
    exact .inr ⟨e, rfl, hstuck⟩

/-- Along a run from the beginning of an accepted story, a choice that is available can be taken,
whatever the dice, unless it is stuck: writes of the choice lead to a state in which it calculates with
an integer that is out of range and a floating point number, or has to write a number that is too long.
If the numbers of the story can be written, as in every story that is loaded from text, it can always be
settled which choices are available, and if the story does not mix the kinds of the numbers for a
resource either, they can always be taken. -/
theorem offered_choice_taken (h : story.Accepted allowCycles) {turns : List Played}
    (run : story.Run (story.begin {}) turns) {n : Nat}
    (hs : (snapshots (story.begin {}) turns)[n]? = some s) (dice : Dice) :
    (∀ available, story.available s = .ok available → ∀ c ∈ available,
      (∃ t, (story.turn s (.text c.id) dice).result = .ok t) ∨
        ∃ e, (story.turn s (.text c.id) dice).result = .error (.range e) ∧ Stuck s c e) ∧
    (story.Short → ∃ available, story.available s = .ok available ∧
      (story.Unmixed → ∀ c ∈ available,
        ∃ t, (story.turn s (.text c.id) dice).result = .ok t)) := by
  refine ⟨fun available havailable c hc => h.taken_or_stuck havailable hc dice, fun hshort => ?_⟩
  have hstate : s.Short := run.snapshot_induction (P := fun _ s => s.Short) (Short.begin story)
    (fun _ _ _ _ _ hs turn => hshort.turn hs turn) n s hs
  obtain ⟨available, havailable⟩ := hshort.exists_available hstate
  refine ⟨available, havailable, fun hunmixed c hc => ?_⟩
  have hsorted : story.Sorted s.toState :=
    run.snapshot_induction (P := fun _ s => story.Sorted s.toState) (sorted_begin hunmixed)
      (fun _ _ _ _ _ hs turn => hs.turn hunmixed turn) n s hs
  obtain ⟨node, hnode, hmem, -⟩ := (mem_available_iff havailable).1 hc
  refine (h.taken_or_stuck havailable hc dice).resolve_right ?_
  rintro ⟨error, -, hstuck⟩
  have hlarge := hshort.tooLarge_of_stuck hstate hnode hmem hstuck
  have hlong := hsorted.tooLong_of_stuck hunmixed hnode hmem hstuck
  exact RangeError.noConfusion (hlarge.symm.trans hlong)

theorem offered_choice_taken_mill : mill.Accepted true ∧ mill.Run (mill.begin {}) millTurns ∧
    (snapshots (mill.begin {}) millTurns)[2]? = some windy ∧ mill.Short ∧ mill.Unmixed ∧
    ∃ c, mill.available windy = .ok [c] ∧ c.id = "grind" ∧
      ∃ t, (mill.turn windy (.text "grind") (.ofList [1])).result = .ok t := by
  have hs : (snapshots (mill.begin {}) millTurns)[2]? = some windy := rfl
  have hshort : mill.Short := by decide +kernel
  have hunmixed : mill.Unmixed := by decide
  have hgrind : mill.available windy = .ok [⟨"grind", "", "./mill", [], grinding, none⟩] := rfl
  obtain ⟨available, havailable, htaken⟩ :=
    (offered_choice_taken mill_accepted mill_run hs (.ofList [1])).2 hshort
  obtain rfl := Except.ok.inj (hgrind.symm.trans havailable)
  exact ⟨mill_accepted, mill_run, hs, hshort, hunmixed, _, hgrind, rfl,
    htaken hunmixed _ List.mem_cons_self⟩

/-! ### Too much gold -/

theorem readEach_melting (place : String) :
    Document.readEach Document.readEffect place 0 (Effect.toData melting) =
      .ok (melting.map some) := by
  have hmuch : (Number.int (Nat.pow 10 200)).isFinite = .ok true := by decide +kernel
  have hhalf : half.isFinite = .ok true := by decide +kernel
  have hmelting : ∀ e ∈ melting, e.WellFormed ∧ ∀ s, e ≠ .verbatim s := by
    have hmember : ∀ e ∈ [.provided (.flagIs "lit" true) (.multiplyResource "gold" half)],
        Effect.WellFormed e :=
      List.forall_mem_singleton.2
        (.provided (.flagIs (by decide)) (.multiplyResource (by decide) hhalf))
    simp only [melting, List.forall_mem_cons]
    exact ⟨⟨.setFlag (by decide), nofun⟩, ⟨.multiplyResource (by decide) hmuch, nofun⟩,
      ⟨.oneOf hmember, nofun⟩, List.forall_mem_nil _⟩
  exact readEach_toData hmelting place

theorem forge_accepted : forge.Accepted false := by
  have hnodes : Document.readNodes forge.form.nodes.entries = .ok forge.nodes.entries := by
    show Document.readNodes [("forge", ⟨some "forge", "", [⟨"melt", "", "yard", [],
      Effect.toData melting, none⟩]⟩), ("yard", ⟨some "yard", "", []⟩)] = _
    simp only [Document.readNodes, Document.readNode, Document.readEach, Document.readChoice,
      readEach_melting]
    rfl
  have hread : ofDatum Schema.checker forge.toDatum = .ok forge := by
    rw [ofDatum_toDatum Schema.checker_keepsStories, Document.StoryForm.read, hnodes, ok_bind,
      Table.ofEntries_entries]
    rfl
  have hload : load Schema.checker forge.toDatum false [] = .ok forge := by
    unfold load
    rw [hread]
    rfl
  exact .document hload

/-- All numbers in the forge are in range, and still the choice that is offered at the beginning cannot
be taken. -/
theorem forge_not_taken : forge.Accepted false ∧
    (∀ a ∈ forge.amounts, a.2.isFinite = .ok true) ∧
    ∃ c, forge.available (forge.begin {}) = .ok [c] ∧ ∀ t,
      (forge.turn (forge.begin {}) (.text c.id) (.ofList [])).result ≠ .ok t := by
  refine ⟨forge_accepted, by decide +kernel, ⟨"melt", "", "yard", [], melting, none⟩, rfl, ?_⟩
  intro t ht
  have hfails :
      (forge.turn (forge.begin {}) (.text "melt") (.ofList [])).result.toOption.isSome = false := by
    decide +kernel
  rw [ht] at hfails
  cases hfails

end Story

end Gamebook
