import QuickJSBridge.Engine.Shapes
import Mathlib.Data.List.Nodup

/-!
# The table of shapes

* `TableOk` — each list of `rt->shape_hash` has the shapes of its hash that are in the table, once, and no other;
* `TableOk.link`, `TableOk.unlink`, `rehash_ok` — `js_shape_hash_link`, `js_shape_hash_unlink` and
  `resize_shape_hash` keep this;
* `findChain_spec` — a search reads no shape that was freed.
-/

namespace QuickJSBridge.Shapes

variable {shapes shapes' : Nat → Option Shape} {table : List (List Nat)} {bits id : Nat} {S S' : Nat → Prop} {sh : Shape}

/-- Place of a shape in the table. -/
def HashesTo (shapes : Nat → Option Shape) (bits id h : Nat) : Prop :=
  ∃ sh, shapes id = some sh ∧ getShapeHash sh.hash bits = h

/-- The table has the shapes in `S`. -/
structure TableOk (shapes : Nat → Option Shape) (table : List (List Nat)) (bits : Nat) (S : Nat → Prop) : Prop where
  length : table.length = 2 ^ bits
  nodup : ∀ (h : Nat) (chain : List Nat), table[h]? = some chain → chain.Nodup
  mem : ∀ (h : Nat) (chain : List Nat), table[h]? = some chain → ∀ id, id ∈ chain ↔ S id ∧ HashesTo shapes bits id h

theorem getShapeHash_lt (h : UInt32) (bits : Nat) : getShapeHash h bits < 2 ^ bits := by
  unfold getShapeHash
  rw [Nat.shiftRight_eq_div_pow]
  have hlt : h.toNat < 2 ^ 32 := UInt32.toNat_lt h
  by_cases hbits : bits ≤ 32
  · refine Nat.div_lt_of_lt_mul ?_
    rw [← Nat.pow_add, Nat.sub_add_cancel hbits]
    exact hlt
  · have hpow : 2 ^ 32 ≤ 2 ^ bits := Nat.pow_le_pow_right (by decide) (by omega)
    exact Nat.lt_of_le_of_lt (Nat.div_le_self _ _) (Nat.lt_of_lt_of_le hlt hpow)

theorem TableOk.chain (h : TableOk shapes table bits S) (hash : UInt32) :
    ∃ chain, table[getShapeHash hash bits]? = some chain := by
  have hlt : getShapeHash hash bits < table.length := by
    rw [h.length]
    exact getShapeHash_lt hash bits
  exact ⟨_, List.getElem?_eq_getElem hlt⟩

/-- The table depends on the hashes of the shapes that are in it. -/
theorem TableOk.congr (h : TableOk shapes table bits S) (hS : ∀ id, S' id ↔ S id)
    (hhash : ∀ id, S id → (shapes' id).map (·.hash) = (shapes id).map (·.hash)) : TableOk shapes' table bits S' := by
  refine ⟨h.length, h.nodup, fun k chain hget id => ?_⟩
  rw [h.mem k chain hget, hS]
  refine and_congr_right fun hid => ?_
  have hsame := hhash id hid
  unfold HashesTo
  cases hs : shapes id with
  | none =>
    rw [hs] at hsame
    have hnone := Option.map_eq_none_iff.mp hsame
    rw [hnone]
  | some sh =>
    rw [hs] at hsame
    obtain ⟨sh', hs', hmap⟩ := Option.map_eq_some_iff.mp hsame
    have hhash : sh'.hash = sh.hash := hmap
    rw [hs']
    refine ⟨fun ⟨e, he, hk⟩ => ⟨sh', rfl, ?_⟩, fun ⟨e, he, hk⟩ => ⟨sh, rfl, ?_⟩⟩
    · rw [hhash, Option.some.inj he]
      exact hk
    · rw [← hhash, Option.some.inj he]
      exact hk

theorem TableOk.link (h : TableOk shapes table bits S) (hid : ¬ S id) (hsh : shapes id = some sh) {chain : List Nat}
    (hchain : table[getShapeHash sh.hash bits]? = some chain) :
    TableOk shapes (table.set (getShapeHash sh.hash bits) (id :: chain)) bits (fun x => x = id ∨ S x) := by
  have hlt := (List.getElem?_eq_some_iff.mp hchain).1
  have hmem := h.mem _ chain hchain
  refine ⟨by rw [List.length_set, h.length], fun k l hget => ?_, fun k l hget x => ?_⟩
  · by_cases hk : k = getShapeHash sh.hash bits
    · rw [hk, List.getElem?_set_self hlt] at hget
      rw [← Option.some.inj hget, List.nodup_cons]
      exact ⟨fun hin => hid ((hmem id).mp hin).1, h.nodup _ chain hchain⟩
    · rw [List.getElem?_set_ne (Ne.symm hk)] at hget
      exact h.nodup k l hget
  · by_cases hk : k = getShapeHash sh.hash bits
    · rw [hk, List.getElem?_set_self hlt] at hget
      rw [← Option.some.inj hget, List.mem_cons, hmem, hk]
      refine ⟨fun hx => hx.elim (fun heq => ?_) fun hx => ⟨.inr hx.1, hx.2⟩, fun hx => ?_⟩
      · rw [heq]
        exact ⟨.inl rfl, sh, hsh, rfl⟩
      · exact hx.1.elim .inl fun hS => .inr ⟨hS, hx.2⟩
    · rw [List.getElem?_set_ne (Ne.symm hk)] at hget
      rw [h.mem k l hget]
      refine ⟨fun hx => ⟨.inr hx.1, hx.2⟩, fun hx => ⟨hx.1.resolve_left fun heq => hk ?_, hx.2⟩⟩
      obtain ⟨e, he, hhash⟩ := hx.2
      rw [heq, hsh] at he
      rw [Option.some.inj he]
      exact hhash.symm

theorem TableOk.unlink (h : TableOk shapes table bits S) (hid : S id) (hsh : shapes id = some sh) {chain : List Nat}
    (hchain : table[getShapeHash sh.hash bits]? = some chain) :
    id ∈ chain ∧
      TableOk shapes (table.set (getShapeHash sh.hash bits) (chain.erase id)) bits (fun x => S x ∧ x ≠ id) := by
  have hlt := (List.getElem?_eq_some_iff.mp hchain).1
  have hmem := h.mem _ chain hchain
  have hnodup := h.nodup _ chain hchain
  refine ⟨(hmem id).mpr ⟨hid, sh, hsh, rfl⟩, by rw [List.length_set, h.length], fun k l hget => ?_, fun k l hget x => ?_⟩
  · by_cases hk : k = getShapeHash sh.hash bits
    · rw [hk, List.getElem?_set_self hlt] at hget
      rw [← Option.some.inj hget]
      exact hnodup.erase id
    · rw [List.getElem?_set_ne (Ne.symm hk)] at hget
      exact h.nodup k l hget
  · by_cases hk : k = getShapeHash sh.hash bits
    · rw [hk, List.getElem?_set_self hlt] at hget
      rw [← Option.some.inj hget, hnodup.mem_erase_iff, hmem, hk]
      exact ⟨fun hx => ⟨⟨hx.2.1, hx.1⟩, hx.2.2⟩, fun hx => ⟨hx.1.2, hx.1.1, hx.2⟩⟩
    · rw [List.getElem?_set_ne (Ne.symm hk)] at hget
      rw [h.mem k l hget]
      refine ⟨fun hx => ⟨⟨hx.1, fun heq => hk ?_⟩, hx.2⟩, fun hx => ⟨hx.1.1, hx.2⟩⟩
      obtain ⟨e, he, hhash⟩ := hx.2
      rw [heq, hsh] at he
      rw [Option.some.inj he]
      exact hhash.symm

/-! ## Resizing -/

theorem tableOk_empty (shapes : Nat → Option Shape) (bits : Nat) :
    TableOk shapes (List.replicate (2 ^ bits) []) bits (fun _ => False) := by
  have hnil : ∀ (k : Nat) (chain : List Nat), (List.replicate (2 ^ bits) [])[k]? = some chain → chain = [] :=
    fun k chain hget => List.eq_of_mem_replicate (List.mem_of_getElem? hget)
  refine ⟨List.length_replicate, fun k chain hget => ?_, fun k chain hget id => ?_⟩
  · rw [hnil k chain hget]
    exact List.nodup_nil
  · rw [hnil k chain hget]
    exact iff_of_false List.not_mem_nil fun hid => hid.1

/-- The shapes of a list are entered one after the other. -/
theorem rehash_ok {ids : List Nat} (h : TableOk shapes table bits S) (hnodup : ids.Nodup)
    (hids : ∀ id ∈ ids, ¬ S id ∧ ∃ sh, shapes id = some sh) :
    ∃ table', Runtime.rehash shapes bits ids table = some table' ∧ TableOk shapes table' bits fun x => x ∈ ids ∨ S x := by
  induction ids generalizing table S with
  | nil => exact ⟨table, rfl, h.congr (fun id => or_iff_right List.not_mem_nil) fun _ _ => rfl⟩
  | cons id rest ih =>
    obtain ⟨hid, hrest⟩ := List.nodup_cons.mp hnodup
    obtain ⟨hnew, sh, hsh⟩ := hids id List.mem_cons_self
    obtain ⟨chain, hchain⟩ := h.chain sh.hash
    obtain ⟨table', hgo, hok⟩ := ih (h.link hnew hsh hchain) hrest fun x hx => by
      obtain ⟨hnot, hsome⟩ := hids x (List.mem_cons_of_mem id hx)
      exact ⟨fun hor => hor.elim (fun heq => hid (heq ▸ hx)) hnot, hsome⟩
    refine ⟨table', ?_, hok.congr (fun x => ?_) fun _ _ => rfl⟩
    · show (shapes id).bind _ = _
      rw [hsh]
      show (table[getShapeHash sh.hash bits]?).bind _ = _
      rw [hchain]
      exact hgo
    · rw [List.mem_cons]
      exact ⟨fun hx => hx.elim (fun hor => hor.elim (fun heq => .inr (.inl heq)) .inl) fun hx => .inr (.inr hx),
        fun hx => hx.elim (fun hx => .inl (.inr hx)) fun hor => hor.elim (fun heq => .inl (.inl heq)) .inr⟩

theorem TableOk.nodup_flatten (h : TableOk shapes table bits S) : table.flatten.Nodup := by
  refine List.nodup_flatten.mpr ⟨fun chain hchain => ?_, ?_⟩
  · obtain ⟨k, hk⟩ := List.mem_iff_getElem?.mp hchain
    exact h.nodup k chain hk
  · refine List.pairwise_iff_getElem.mpr fun i j hi hj hij => ?_
    intro x hx hx'
    obtain ⟨-, sh, hsh, hhash⟩ := (h.mem i _ (List.getElem?_eq_getElem hi) x).mp hx
    obtain ⟨-, sh', hsh', hhash'⟩ := (h.mem j _ (List.getElem?_eq_getElem hj) x).mp hx'
    rw [hsh] at hsh'
    rw [Option.some.inj hsh'] at hhash
    omega

theorem TableOk.mem_flatten (h : TableOk shapes table bits S) (hS : ∀ id, S id → ∃ sh, shapes id = some sh) (id : Nat) :
    id ∈ table.flatten ↔ S id := by
  rw [List.mem_flatten]
  refine ⟨fun ⟨chain, hchain, hid⟩ => ?_, fun hid => ?_⟩
  · obtain ⟨k, hk⟩ := List.mem_iff_getElem?.mp hchain
    exact ((h.mem k chain hk id).mp hid).1
  · obtain ⟨sh, hsh⟩ := hS id hid
    obtain ⟨chain, hchain⟩ := h.chain sh.hash
    exact ⟨chain, List.mem_of_getElem? hchain, (h.mem _ chain hchain id).mpr ⟨hid, sh, hsh, rfl⟩⟩

/-- The table is made anew with another number of lists. -/
theorem TableOk.resize (h : TableOk shapes table bits S) (hS : ∀ id, S id → ∃ sh, shapes id = some sh) (bits' : Nat) :
    ∃ table', Runtime.rehash shapes bits' table.flatten (List.replicate (2 ^ bits') []) = some table' ∧
      TableOk shapes table' bits' S := by
  have hmem := h.mem_flatten hS
  obtain ⟨table', hgo, hok⟩ := rehash_ok (tableOk_empty shapes bits') h.nodup_flatten
    fun id hid => ⟨fun hf => hf, hS id ((hmem id).mp hid)⟩
  exact ⟨table', hgo, hok.congr (fun id => by rw [hmem, or_false]) fun _ _ => rfl⟩

/-! ## Searching -/

theorem findChain_spec (test : Shape → Bool) {chain : List Nat} (h : ∀ id ∈ chain, ∃ sh, shapes id = some sh) :
    ∃ r, Runtime.findChain shapes test chain = some r ∧
      ∀ id, r = some id → id ∈ chain ∧ ∃ sh, shapes id = some sh ∧ test sh = true := by
  induction chain with
  | nil => exact ⟨none, rfl, fun id heq => by cases heq⟩
  | cons id rest ih =>
    obtain ⟨sh, hsh⟩ := h id List.mem_cons_self
    obtain ⟨r, hgo, hr⟩ := ih fun x hx => h x (List.mem_cons_of_mem id hx)
    by_cases htest : test sh = true
    · refine ⟨some id, ?_, fun x heq => ?_⟩
      · show (shapes id).bind _ = _
        rw [hsh]
        exact if_pos htest
      · cases heq
        exact ⟨List.mem_cons_self, sh, hsh, htest⟩
    · refine ⟨r, ?_, fun x heq => ?_⟩
      · show (shapes id).bind _ = _
        rw [hsh]
        exact (if_neg htest).trans hgo
      · obtain ⟨hx, hrest⟩ := hr x heq
        exact ⟨List.mem_cons_of_mem id hx, hrest⟩

end QuickJSBridge.Shapes
