import Mathlib.Data.List.Nodup
import Mathlib.Data.List.Perm.Basic
import Mathlib.Data.List.Range

namespace Hamachi

/-!
# Items in numbered buckets

A table of chains keeps every item in the bucket that a function of the item
names.  Putting items one by one to the front of their buckets reverses each
bucket and loses nothing.
-/

variable {Item Key : Type}

/-- All items of the first `count` buckets. -/
def collect (count : Nat) (chains : Nat → List Item) : List Item :=
  (List.range count).flatMap chains

/-- The buckets after items were put to their fronts, one by one. -/
def distribute
    (bucket : Item → Nat)
    (items : List Item)
    (index : Nat) : List Item :=
  (items.filter fun item => bucket item = index).reverse

variable
  {count : Nat}
  {chains : Nat → List Item}
  {bucket : Item → Nat}
  {items : List Item}

theorem mem_collect {item : Item} :
    item ∈ collect count chains ↔
      ∃ index < count, item ∈ chains index := by
  simp [collect]

/-- No bucket has more items than there are. -/
theorem length_le_collect {index : Nat} (bound : index < count) :
    (chains index).length ≤ (collect count chains).length := by
  rw [collect, List.flatMap_def]
  exact (List.sublist_flatten_of_mem
    (List.mem_map_of_mem (List.mem_range.mpr bound))).length_le

theorem mem_distribute {item : Item} {index : Nat} :
    item ∈ distribute bucket items index ↔
      item ∈ items ∧ bucket item = index := by
  simp [distribute]

/-- One more item goes to the front of its bucket. -/
theorem distribute_append_singleton (item : Item) (index : Nat) :
    distribute bucket (items ++ [item]) index =
      if bucket item = index then
        item :: distribute bucket items index
      else
        distribute bucket items index := by
  unfold distribute
  split
  · rename_i isBucket
    simp [List.filter_append, isBucket]
  · rename_i isOther
    simp [List.filter_append, isOther]

/-- Keys that name their bucket are distinct when they are within buckets. -/
theorem nodup_collect
    {key : Item → Key}
    {home : Key → Nat}
    (inBucket :
      ∀ index < count, ∀ item ∈ chains index, home (key item) = index)
    (nodup : ∀ index < count, ((chains index).map key).Nodup) :
    ((collect count chains).map key).Nodup := by
  unfold collect
  rw [List.map_flatMap]
  refine List.nodup_flatMap.mpr ⟨?_, ?_⟩
  · intro index member
    exact nodup index (List.mem_range.mp member)
  · refine List.nodup_range.imp_of_mem ?_
    intro first second inFirst inSecond different
    simp only [Function.onFun, List.disjoint_left, List.mem_map]
    rintro _ ⟨item, inChain, rfl⟩ ⟨other, inOther, same⟩
    apply different
    rw [← inBucket first (List.mem_range.mp inFirst) item inChain, ← same]
    exact inBucket second (List.mem_range.mp inSecond) other inOther

/-- Distribution loses no item and makes none up. -/
theorem mem_collect_distribute
    (bounded : ∀ item ∈ items, bucket item < count)
    {item : Item} :
    item ∈ collect count (distribute bucket items) ↔ item ∈ items := by
  rw [mem_collect]
  constructor
  · rintro ⟨index, _, member⟩
    exact (mem_distribute.mp member).1
  · intro member
    exact ⟨bucket item, bounded item member, mem_distribute.mpr ⟨member, rfl⟩⟩

/-- A bucket keeps its items apart. -/
theorem nodup_distribute
    {key : Item → Key}
    (nodup : (items.map key).Nodup)
    (index : Nat) :
    ((distribute bucket items index).map key).Nodup := by
  rw [distribute, List.map_reverse, List.nodup_reverse]
  exact nodup.sublist (List.filter_sublist.map key)

/-- Distribution rearranges the items. -/
theorem collect_distribute_perm
    {key : Item → Key}
    {home : Key → Nat}
    (nodup : (items.map key).Nodup)
    (bounded : ∀ item ∈ items, home (key item) < count) :
    (collect count (distribute (home ∘ key) items)).Perm items := by
  have collectNodup :
      ((collect count (distribute (home ∘ key) items)).map key).Nodup :=
    nodup_collect
      (fun index _ item member => (mem_distribute.mp member).2)
      (fun index _ => nodup_distribute nodup index)
  refine (List.perm_ext_iff_of_nodup collectNodup.of_map nodup.of_map).mpr ?_
  intro item
  exact mem_collect_distribute bounded

end Hamachi
