import Mathlib.Data.Finset.Card
import Mathlib.Data.List.Nodup
import TieredWeights.Loader
import TieredWeights.Proofs.Bindings

/-!
# Plans and names

A plan is made by position and read by name. No two parameters of a block have one name, so the tier
that a plan gives for a name is the one at the name's position. For the same reason a map that is of
the block's size and has all names of the block has no other names.
-/
namespace TieredWeights

/-- A split that is accepted has brackets. -/
theorem Split.ofSplit_of_validate {split : Split Binary64} (h : split.validate = .ok ()) :
    ∃ brackets, Brackets.ofSplit split = .ok brackets := by
  unfold validate at h
  unfold Brackets.ofSplit normalized
  rcases hcheck : split.check with e | u <;> rw [hcheck] at h
  · cases h
  · exact ⟨_, rfl⟩

/-- Nothing but a split that is accepted has brackets. -/
theorem Split.validate_of_ofSplit {split : Split Binary64} {r : Except ShareFault (Brackets Binary64)}
    (h : Brackets.ofSplit split = r) :
    split.validate = (r.map fun _ => ()).mapError (SplitFault.ofShares split) := by
  subst h
  unfold validate Brackets.ofSplit normalized
  rcases split.check with e | u <;> rfl

namespace Brackets

theorem assignFrom_names {α : Type} [ShareArithmetic α] (b : Brackets α) (total reached : Nat)
    (parameters : List (String × Nat)) :
    (b.assignFrom total reached parameters).map PlannedParameter.name = parameters.map Prod.fst := by
  induction parameters generalizing reached with
  | nil => rfl
  | cons x rest ih => rw [assignFrom, List.map_cons, List.map_cons, ih]

variable (b : Brackets Binary64) (block : Block)

theorem assign_names : (b.assign block.sizes).parameters.map PlannedParameter.name =
    block.parameters.map Prod.fst := by
  rw [assign, assignFrom_names, Block.sizes, List.map_map]
  rfl

theorem assign_size : (b.assign block.sizes).parameters.length = block.size := by
  rw [← List.length_map PlannedParameter.name, assign_names, List.length_map, Block.size]

/-- A name has the tier of its position. -/
theorem tierOf?_assign {k : Nat} {x : String × Tensor} (hx : block.parameters[k]? = some x) :
    ∃ planned, (b.assign block.sizes).parameters[k]? = some planned ∧
      (b.assign block.sizes).tierOf? x.1 = some planned.tier := by
  have hlt : k < (b.assign block.sizes).parameters.length := by
    rw [assign_size]
    exact (List.getElem?_eq_some_iff.1 hx).1
  obtain ⟨planned, hplanned⟩ : ∃ planned, (b.assign block.sizes).parameters[k]? = some planned :=
    ⟨_, List.getElem?_eq_getElem hlt⟩
  refine ⟨planned, hplanned, ?_⟩
  have hnames := b.assign_names block
  have hnodup : ((b.assign block.sizes).parameters.map PlannedParameter.name).Nodup := by
    rw [hnames]
    exact block.distinct
  have hname : planned.name = x.1 := by
    have hk := congrArg (fun names => names[k]?) hnames
    simpa [hx, hplanned] using hk
  have hmem : planned ∈ (b.assign block.sizes).parameters := List.mem_of_getElem? hplanned
  unfold Plan.tierOf?
  cases hfind : (b.assign block.sizes).parameters.find? fun q => q.name = x.1 with
  | none =>
    rw [List.find?_eq_none] at hfind
    exact absurd (decide_eq_true hname) (hfind planned hmem)
  | some q =>
    have hq : q.name = planned.name := by
      rw [hname]
      simpa using List.find?_some hfind
    have hsame := List.inj_on_of_nodup_map hnodup (List.mem_of_find?_eq_some hfind) hmem hq
    rw [hsame, Option.map_some]

end Brackets

namespace Block

/-- The keys of a block's parameters under a plan, in block order. -/
def keys (block : Block) (plan : Plan) : List Key :=
  List.zipWith (fun x planned => ⟨x.2.identity, planned.tier⟩) block.parameters plan.parameters

/-- The key of a parameter whose tier is looked up by name. -/
def keyOf (plan : Plan) (x : String × Tensor) : Key :=
  ⟨x.2.identity, (plan.tierOf? x.1).getD .host⟩

theorem keys_assign (b : Brackets Binary64) (block : Block) :
    block.keys (b.assign block.sizes) = block.parameters.map (keyOf (b.assign block.sizes)) := by
  refine List.ext_getElem? fun k => ?_
  rw [keys, List.getElem?_zipWith, List.getElem?_map]
  cases hx : block.parameters[k]? with
  | none => rfl
  | some x =>
    obtain ⟨planned, hplanned, htier⟩ := b.tierOf?_assign block hx
    simp [hplanned, keyOf, htier]

/-- The tier of a key is planned. -/
theorem exists_planned {block : Block} {plan : Plan} {key : Key} (h : key ∈ block.keys plan) :
    ∃ planned ∈ plan.parameters, planned.tier = key.tier := by
  obtain ⟨k, hk⟩ := List.mem_iff_getElem?.1 h
  obtain ⟨x, planned, -, hplanned, rfl⟩ := List.getElem?_zipWith_eq_some.1 hk
  exact ⟨planned, List.mem_of_getElem? hplanned, rfl⟩

theorem mem_names {block : Block} {name : String} :
    name ∈ block.names ↔ name ∈ block.parameters.map Prod.fst :=
  (List.mergeSort_perm _ _).mem_iff

end Block

/-- Every parameter of a block is planned, on the tier of its key. -/
theorem Brackets.tierOf?_keyOf (b : Brackets Binary64) (block : Block) {x : String × Tensor}
    (hx : x ∈ block.parameters) :
    (b.assign block.sizes).tierOf? x.1 = some (Block.keyOf (b.assign block.sizes) x).tier ∧
      (Block.keyOf (b.assign block.sizes) x).identity = x.2.identity := by
  obtain ⟨k, hk⟩ := List.mem_iff_getElem?.1 hx
  obtain ⟨planned, -, htier⟩ := b.tierOf?_assign block hk
  rw [Block.keyOf, htier]
  exact ⟨rfl, rfl⟩

/-- A map matches a block just if it has the names of the block. -/
theorem Loader.matchesBlock_iff {parameters : Table String PlacementId} {block : Block} :
    matchesBlock parameters block ↔
      parameters.keys.toFinset = (block.parameters.map Prod.fst).toFinset := by
  have hkeys : parameters.keys.toFinset.card = parameters.size := by
    rw [List.toFinset_card_of_nodup (Table.nodup_keys _), Table.keys, List.length_map, Table.size]
  have hnames : (block.parameters.map Prod.fst).toFinset.card = block.size := by
    rw [List.toFinset_card_of_nodup block.distinct, List.length_map, Block.size]
  have hcontains : block.names.all parameters.contains ↔
      (block.parameters.map Prod.fst).toFinset ⊆ parameters.keys.toFinset := by
    rw [List.all_eq_true]
    refine ⟨fun h name hname => ?_, fun h name hname => ?_⟩
    · rw [List.mem_toFinset] at hname ⊢
      exact Table.mem_keys.2 (h name (Block.mem_names.2 hname))
    · have hkey := h (List.mem_toFinset.2 (Block.mem_names.1 hname))
      exact Table.mem_keys.1 (List.mem_toFinset.1 hkey)
  rw [matchesBlock, Bool.and_eq_true, decide_eq_true_eq, hcontains, ← hkeys, ← hnames]
  refine ⟨fun h => ?_, fun h => ?_⟩
  · exact (Finset.eq_of_subset_of_card_le h.2 h.1.le).symm
  · rw [h]
    exact ⟨rfl, subset_rfl⟩

end TieredWeights
