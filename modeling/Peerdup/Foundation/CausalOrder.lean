import Mathlib.Data.List.Nodup
import Mathlib.Data.Set.Finite.Basic
import Mathlib.Order.WellFounded

/-!
# Items that name what they depend on

An item may be taken once every item it names has been taken. Without circles, what
waits for nothing missing cannot all be stuck.
-/

set_option autoImplicit false

namespace Peerdup.Foundation.CausalOrder

variable {Item Name : Type*} (name : Item → Name) (deps : Item → List Name)

/-- All that the item names has been taken. -/
def Ready (taken : List Item) (item : Item) : Prop := ∀ dep ∈ deps item, dep ∈ taken.map name

/-- Everything comes after what it names. -/
def Ordered (items : List Item) : Prop :=
  ∀ front item back, items = front ++ item :: back → Ready name deps front item

theorem ordered_nil : Ordered name deps [] := by
  intro front item back whole
  simp at whole

theorem Ordered.concat {name : Item → Name} {deps : Item → List Name} {items : List Item}
    {item : Item} (ordered : Ordered name deps items) (ready : Ready name deps items item) :
    Ordered name deps (items ++ [item]) := by
  intro front other back whole
  rcases List.eq_nil_or_concat back with none | ⟨others, last, same⟩
  · rw [none] at whole
    obtain ⟨fronts, equal⟩ := List.append_inj' whole rfl
    cases equal
    exact fronts ▸ ready
  · rw [same, List.concat_eq_append, ← List.cons_append, ← List.append_assoc] at whole
    exact ordered front other others (List.append_inj' whole rfl).1

/-- The second names the first. -/
def Names (first second : Item) : Prop := name first ∈ deps second

/-- No item reaches itself through the items of the set. -/
def Acyclic (items : Set Item) : Prop :=
  ∀ item, ¬ Relation.TransGen
    (fun first second => first ∈ items ∧ second ∈ items ∧ Names name deps first second) item item

theorem acyclic_of_rank {name : Item → Name} {deps : Item → List Name} {items : Set Item}
    (rank : Item → ℕ) (raises : ∀ first ∈ items, ∀ second ∈ items, Names name deps first second →
      rank first < rank second) : Acyclic name deps items := by
  intro item circle
  have above : ∀ {first second : Item}, Relation.TransGen
      (fun first second => first ∈ items ∧ second ∈ items ∧ Names name deps first second)
      first second → rank first < rank second := by
    intro first second path
    induction path with
    | single edge => exact raises _ edge.1 _ edge.2.1 edge.2.2
    | tail _ edge ih => exact ih.trans (raises _ edge.1 _ edge.2.1 edge.2.2)
  exact Nat.lt_irrefl _ (above circle)

theorem exists_minimal_waiting {name : Item → Name} {deps : Item → List Name} {items : Set Item}
    (acyclic : Acyclic name deps items) {waiting : List Item} (among : ∀ item ∈ waiting, item ∈ items)
    (nonempty : waiting ≠ []) :
    ∃ item ∈ waiting, ∀ other ∈ waiting, ¬ Names name deps other item := by
  let before : {item // item ∈ waiting} → {item // item ∈ waiting} → Prop :=
    fun first second => Relation.TransGen
      (fun first second => first ∈ items ∧ second ∈ items ∧ Names name deps first second)
      first.val second.val
  have finite : Finite {item // item ∈ waiting} := waiting.finite_toSet.to_subtype
  have transitive : IsTrans _ before := ⟨fun _ _ _ left right => left.trans right⟩
  have irreflexive : Std.Irrefl before := ⟨fun item cycle => acyclic item.val cycle⟩
  have founded : WellFounded before := Finite.wellFounded_of_trans_of_irrefl before
  obtain ⟨first, member⟩ := List.exists_mem_of_ne_nil _ nonempty
  obtain ⟨least, _, minimal⟩ := founded.has_min Set.univ ⟨⟨first, member⟩, trivial⟩
  refine ⟨least.val, least.property, fun other listed names => ?_⟩
  exact minimal ⟨other, listed⟩ trivial
    (.single ⟨among other listed, among least.val least.property, names⟩)

theorem exists_ready {name : Item → Name} {deps : Item → List Name} {items : Set Item}
    (acyclic : Acyclic name deps items) {taken waiting : List Item}
    (among : ∀ item ∈ waiting, item ∈ items)
    (arrived : ∀ item ∈ waiting, ∀ dep ∈ deps item, dep ∈ (taken ++ waiting).map name)
    (nonempty : waiting ≠ []) : ∃ item ∈ waiting, Ready name deps taken item := by
  obtain ⟨item, member, minimal⟩ := exists_minimal_waiting acyclic among nonempty
  refine ⟨item, member, fun dep named => ?_⟩
  have here := arrived item member dep named
  rw [List.map_append] at here
  rcases List.mem_append.mp here with held | waits
  · exact held
  · obtain ⟨other, listed, same⟩ := List.mem_map.mp waits
    exact absurd (show name other ∈ deps item from same ▸ named) (minimal other listed)

/-- The name has been taken, or it is that of an item on offer that names only such. -/
inductive Grounded (taken : List Name) (offered : List Item) : Name → Prop
  | taken {dep : Name} : dep ∈ taken → Grounded taken offered dep
  | offered {item : Item} : item ∈ offered → (∀ dep ∈ deps item, Grounded taken offered dep) →
      Grounded taken offered (name item)

section Grounded

variable {name : Item → Name} {deps : Item → List Name} {taken : List Name} {offered : List Item}

/-- Names that are closed under the offers hold all that is grounded. -/
theorem Grounded.mem_of_closed {dep : Name} (grounded : Grounded name deps taken offered dep)
    {held : List Name} (known : taken ⊆ held)
    (closed : ∀ item ∈ offered, (∀ dep ∈ deps item, dep ∈ held) → name item ∈ held) :
    dep ∈ held := by
  induction grounded with
  | taken member => exact known member
  | offered offer _ ih => exact closed _ offer ih

theorem Ready.grounded {items : List Item} {item : Item} (ready : Ready name deps items item)
    (grounded : ∀ other ∈ items, Grounded name deps taken offered (name other)) :
    ∀ dep ∈ deps item, Grounded name deps taken offered dep := by
  intro dep named
  obtain ⟨other, member, same⟩ := List.mem_map.mp (ready dep named)
  exact same ▸ grounded other member

end Grounded

end Peerdup.Foundation.CausalOrder
