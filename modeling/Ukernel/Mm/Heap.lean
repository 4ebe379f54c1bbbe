import Ukernel.Lib.List
import Mathlib.Data.List.Chain

/-!
# The chunk heap

`kernel/mm/heap.c`: a pool of 16 MB cut into chunks, each with a 16 byte header (`size`, `used`,
and a list node) stored in the pool itself in front of its payload. Allocation splits the first
chunk that fits; freeing merges a chunk with its free neighbours. The kernel and the user heap are
two pools of this kind.

## Main definitions

* `HeapLayout`: where a pool and its list head lie
* `heapMalloc`, `heapFree`: the two operations, over byte memory
* `Chunk`, `Rep`: the list of chunks that a memory holds

## Main results

* `Rep.split`, `Rep.join`, `Rep.setUsed`: what the writes of the operations do to the chunks
* `findChunk_eq`: the search of `heap_malloc` finds the first chunk that fits
-/

namespace Ukernel.Mm

open Machine Lib

/-- `HEAP_TOTAL_SIZE`. -/
def heapTotalSize : Nat := 1024 * 1024 * 16

/-- Where a pool and the head of its chunk list lie: apart from each other, and not across the end
of the address space. The pool base is a multiple of `HEAP_ALIGN`. -/
structure HeapLayout where
  pool : Nat
  headNode : Nat
  aligned : pool % 8 = 0
  pool_end : pool + heapTotalSize < 2 ^ 32
  headNode_ne : headNode ≠ 0
  headNode_end : headNode + 8 ≤ 2 ^ 32
  headNode_apart : headNode + 8 ≤ pool ∨ pool + heapTotalSize ≤ headNode

/-- The memory, and the fields of a `heappool` that change. -/
structure Heap where
  mem : Memory
  availSize : Nat
  init : Bool

variable (L : HeapLayout)

/-- A pool before its first use: static storage, so the list head is zero. -/
def Heap.start (mem : Memory) : Heap :=
  ⟨store32 (store32 mem L.headNode 0) (L.headNode + 4) 0, heapTotalSize, false⟩

/-- `kheap_init`; `lock` says whether `spinlock_alloc` succeeds. -/
def kheapInit (h : Heap) (lock : Bool) : Heap :=
  if !lock then h
  else
    let m := listInit h.mem L.headNode
    let m := store32 m L.pool (heapTotalSize - 16)
    let m := store32 m (L.pool + 4) 0
    { h with mem := listAdd m (L.pool + 8) L.headNode, init := true }

/-- The chunk search of `heap_malloc` from a node on. No answer stands for a null dereference or
for a search that does not end. -/
def findChunk (m : Memory) (reqSize : Nat) : (fuel node : Nat) → Option (Option Nat)
  | 0, _ => none
  | fuel + 1, node =>
    if node = L.headNode then some none
    else if node = 0 then none
    else if reqSize ≤ load32 m (node - 8) && load32 m (node - 8 + 4) == 0 then
      some (some (node - 8))
    else findChunk m reqSize fuel (load32 m (node + 4))

/-- More steps than a pool can hold chunks. -/
def heapFuel : Nat := 2 ^ 20 + 1

/-- The writes of `heap_malloc` once a chunk is found. -/
def carve (m : Memory) (chunk allocSize alignedSize : Nat) : Memory :=
  let reqSize := 16 + alignedSize
  let newChunk := chunk + reqSize
  let m :=
    if newChunk + 16 ≤ L.pool + heapTotalSize then
      let m := store32 m newChunk (load32 m chunk + (2 ^ 32 - reqSize))
      let m := store32 m (newChunk + 4) 0
      listAdd m (newChunk + 8) (chunk + 8)
    else m
  let m := memset m (chunk + 16) 0 allocSize
  let m := store32 m (chunk + 4) 1
  store32 m chunk alignedSize

/-- `heap_malloc`: the payload address or 0, and the heap afterwards. -/
def heapMalloc (h : Heap) (lock : Bool) (allocSize : Nat) : Option (Nat × Heap) :=
  let h := if h.init then h else kheapInit L h lock
  if heapTotalSize < allocSize then some (0, h)
  else if 0xFFFFFFFF - 7 < allocSize then some (0, h)
  else
    let alignedSize := (allocSize + 7) / 8 * 8
    let reqSize := 16 + alignedSize
    if h.availSize < reqSize then some (0, h)
    else
      match findChunk L h.mem reqSize heapFuel (load32 h.mem (L.headNode + 4)) with
      | none => none
      | some none => some (0, h)
      | some (some chunk) =>
        some (chunk + 16, { h with
          mem := carve L h.mem chunk allocSize alignedSize
          availSize := (h.availSize + (2 ^ 32 - reqSize)) % 2 ^ 32 })

/-- An address plus an offset. `heap_free` follows whatever pointer it is given, and the addresses
that it derives may pass the end of the address space. -/
def offset (a n : Nat) : Nat := (a + n) % 2 ^ 32

/-- The chunk that a list node belongs to. -/
def chunkOf (node : Nat) : Nat := offset node (2 ^ 32 - 8)

/-- Let a chunk absorb the chunk at `next` behind it. -/
def absorb (m : Memory) (chunk next : Nat) : Memory :=
  listDel (store32 m chunk (load32 m chunk + (16 + load32 m next))) (offset next 8)

/-- The first merge of `heap_free`: with the next chunk. -/
def mergeNext (m : Memory) (freeChunk : Nat) : Memory :=
  let next := load32 m (offset freeChunk 12)
  if next ≠ L.headNode then
    let chunk := chunkOf next
    if load32 m (offset chunk 4) = 0 then absorb m freeChunk chunk else m
  else m

/-- The second merge of `heap_free`: with the previous chunk, which then is the free chunk. -/
def mergePrev (m : Memory) (freeChunk : Nat) : Memory × Nat :=
  let prev := load32 m (offset freeChunk 8)
  if prev ≠ L.headNode then
    let chunk := chunkOf prev
    if load32 m (offset chunk 4) = 0 then (absorb m chunk freeChunk, chunk) else (m, freeChunk)
  else (m, freeChunk)

/-- `heap_free`. -/
def heapFree (h : Heap) (pointer : Nat) : Heap :=
  if pointer = 0 then h
  else
    let freeChunk := offset pointer (2 ^ 32 - 16)
    if load32 h.mem (offset freeChunk 4) = 0 then h
    else
      let r := mergePrev L (mergeNext L h.mem freeChunk) freeChunk
      { h with
        mem := store32 r.1 (offset r.2 4) 0
        availSize := (h.availSize + (16 + load32 h.mem freeChunk)) % 2 ^ 32 }

theorem offset_eq {a n : Nat} (h : a + n < 2 ^ 32) : offset a n = a + n := Nat.mod_eq_of_lt h

/-! ## Chunks -/

/-- A chunk as its header describes it. -/
structure Chunk where
  addr : Nat
  size : Nat
  used : Bool
deriving DecidableEq, Repr

/-- The list node in the header. -/
def Chunk.node (c : Chunk) : Nat := c.addr + 8

theorem chunkOf_node {c : Chunk} (h : c.addr + 8 < 2 ^ 32) : chunkOf c.node = c.addr := by
  unfold chunkOf offset Chunk.node
  omega

/-- The chunks met on the way from a node to the head of the list. -/
def chunksFrom (m : Memory) : (fuel node : Nat) → Option (List Chunk)
  | 0, _ => none
  | fuel + 1, node =>
    if node = L.headNode then some []
    else
      (chunksFrom m fuel (load32 m (node + 4))).map
        (⟨node - 8, load32 m (node - 8), load32 m (node - 8 + 4) != 0⟩ :: ·)

/-- The chunk list of a pool. -/
def Heap.chunks (h : Heap) : Option (List Chunk) :=
  chunksFrom L h.mem heapFuel (load32 h.mem (L.headNode + 4))

/-- The chunks lie one behind the other and fill the addresses from `a` to `e`. -/
def Tiles : Nat → List Chunk → Nat → Prop
  | a, [], e => a = e
  | a, c :: cs, e => c.addr = a ∧ Tiles (a + 16 + c.size) cs e

theorem tiles_append {a e : Nat} {xs ys : List Chunk} :
    Tiles a (xs ++ ys) e ↔ ∃ b, Tiles a xs b ∧ Tiles b ys e := by
  induction xs generalizing a with
  | nil => exact ⟨fun h => ⟨a, rfl, h⟩, fun ⟨_, hb, h⟩ => hb ▸ h⟩
  | cons c xs ih => simp only [List.cons_append, Tiles, ih, and_assoc, exists_and_left]

theorem Tiles.length_le {a e : Nat} {cs : List Chunk} (h : Tiles a cs e) :
    a + 16 * cs.length ≤ e := by
  induction cs generalizing a with
  | nil => exact h.le
  | cons c cs ih =>
    have := ih h.2
    simp only [List.length_cons]
    omega

theorem Tiles.mem {a e : Nat} {cs : List Chunk} (h : Tiles a cs e) {c : Chunk} (hc : c ∈ cs) :
    a ≤ c.addr ∧ c.addr + 16 + c.size ≤ e := by
  induction cs generalizing a with
  | nil => exact absurd hc List.not_mem_nil
  | cons d cs ih =>
    rcases List.mem_cons.mp hc with rfl | hc
    · have := h.2.length_le
      have := h.1
      omega
    · have := ih h.2 hc
      omega

/-- A chunk ends before every later one begins. -/
theorem Tiles.pairwise {a e : Nat} {cs : List Chunk} (h : Tiles a cs e) :
    cs.Pairwise fun c d => c.addr + 16 + c.size ≤ d.addr := by
  induction cs generalizing a with
  | nil => exact List.Pairwise.nil
  | cons c cs ih =>
    refine List.pairwise_cons.mpr ⟨fun d hd => ?_, ih h.2⟩
    have := (h.2.mem hd).1
    rw [h.1]
    exact this

/-- Two chunks of a tiling are the same or do not overlap. -/
theorem Tiles.apart {a e : Nat} {cs : List Chunk} (h : Tiles a cs e) {c d : Chunk} (hc : c ∈ cs)
    (hd : d ∈ cs) :
    c = d ∨ c.addr + 16 + c.size ≤ d.addr ∨ d.addr + 16 + d.size ≤ c.addr := by
  induction cs generalizing a with
  | nil => exact absurd hc List.not_mem_nil
  | cons x cs ih =>
    have hx := (List.pairwise_cons.mp h.pairwise).1
    rcases List.mem_cons.mp hc with rfl | hc' <;> rcases List.mem_cons.mp hd with rfl | hd'
    · exact Or.inl rfl
    · exact Or.inr (Or.inl (hx d hd'))
    · exact Or.inr (Or.inr (hx c hc'))
    · exact ih h.2 hc' hd'

theorem Tiles.aligned {a e : Nat} {cs : List Chunk} (h : Tiles a cs e) (ha : a % 8 = 0)
    (hsize : ∀ c ∈ cs, c.size % 8 = 0) {c : Chunk} (hc : c ∈ cs) : c.addr % 8 = 0 := by
  induction cs generalizing a with
  | nil => exact absurd hc List.not_mem_nil
  | cons d cs ih =>
    have hd := hsize d List.mem_cons_self
    rcases List.mem_cons.mp hc with rfl | hc
    · exact h.1 ▸ ha
    · exact ih h.2 (by omega) (fun x hx => hsize x (List.mem_cons_of_mem _ hx)) hc

/-- The header fields in memory. -/
def Header (m : Memory) (c : Chunk) : Prop :=
  load32 m c.addr = c.size ∧ load32 m (c.addr + 4) = c.used.toNat

/-- The memory holds the chunks `cs`: they tile the pool, the list runs through them in order, and
their headers describe them. -/
structure Rep (m : Memory) (cs : List Chunk) : Prop where
  tiles : Tiles L.pool cs (L.pool + heapTotalSize)
  ring : Segment m L.headNode (cs.map Chunk.node) L.headNode
  header : ∀ c ∈ cs, Header m c
  size_mod : ∀ c ∈ cs, c.size % 8 = 0

/-- An address lies in a list node of the pool. -/
def InNodes (cs : List Chunk) (x : Nat) : Prop :=
  (∃ c ∈ cs, c.node ≤ x ∧ x < c.node + 8) ∨ L.headNode ≤ x ∧ x < L.headNode + 8

section Rep

variable {L} {m m' : Memory} {xs ys cs : List Chunk} {c d : Chunk} {x : Nat}

theorem not_inNodes_iff : ¬InNodes L cs x ↔ (∀ c ∈ cs, x < c.addr + 8 ∨ c.addr + 16 ≤ x) ∧
    (x < L.headNode ∨ L.headNode + 8 ≤ x) := by
  unfold InNodes Chunk.node
  rw [not_or]
  refine and_congr ⟨fun h c hc => ?_, fun h ⟨c, hc, h1, h2⟩ => ?_⟩ (by omega)
  · by_contra hno
    exact h ⟨c, hc, by omega, by omega⟩
  · have := h c hc
    omega

/-- The node that a chunk's node points to is one of the list. -/
theorem next_of_inNodes {n : Nat} (hn : n ∈ ys.map Chunk.node ++ [L.headNode]) (hsub : ys ⊆ cs)
    (hx : ¬InNodes L cs x) : x < n ∨ n + 4 ≤ x := by
  obtain ⟨hnodes, hhead⟩ := not_inNodes_iff.mp hx
  rcases List.mem_append.mp hn with hn | hn
  · grind [Chunk.node]
  · rw [List.mem_singleton.mp hn]
    omega

/-- Size and use of a chunk lie outside of all nodes. -/
theorem Tiles.not_inNodes (h : Tiles L.pool cs (L.pool + heapTotalSize)) (hc : c ∈ cs)
    (hlo : c.addr ≤ x) (hhi : x < c.addr + 8) : ¬InNodes L cs x := by
  have hmem := h.mem hc
  have hhead := L.headNode_apart
  refine not_inNodes_iff.mpr ⟨fun d hd => ?_, by omega⟩
  rcases h.apart hc hd with rfl | h | h <;> omega

theorem tiles_nodeApart (h : Tiles L.pool cs (L.pool + heapTotalSize)) :
    (L.headNode :: cs.map Chunk.node).Pairwise NodeApart := by
  refine List.pairwise_cons.mpr ⟨?_, ?_⟩
  · rintro x hx
    obtain ⟨c, hc, rfl⟩ := List.mem_map.mp hx
    have := h.mem hc
    have := L.headNode_apart
    unfold NodeApart Chunk.node
    omega
  · refine List.pairwise_map.mpr (h.pairwise.imp fun hcd => Or.inl ?_)
    unfold Chunk.node
    omega

/-- In a tiling, what stands left of a chunk ends before it and what stands right of it begins
behind it. -/
theorem Tiles.around {a e : Nat} (h : Tiles a (xs ++ c :: ys) e) :
    (∀ x ∈ xs, x.addr + 16 + x.size ≤ c.addr) ∧ ∀ y ∈ ys, c.addr + 16 + c.size ≤ y.addr := by
  obtain ⟨-, hcys, hcross⟩ := List.pairwise_append.mp h.pairwise
  exact ⟨fun x hx => hcross x hx c List.mem_cons_self, (List.pairwise_cons.mp hcys).1⟩

theorem Header.congr (h : Header m c) (h0 : load32 m' c.addr = load32 m c.addr)
    (h4 : load32 m' (c.addr + 4) = load32 m (c.addr + 4)) : Header m' c :=
  ⟨h0.trans h.1, h4.trans h.2⟩

/-- Writing outside the headers and the list head leaves the chunks alone. -/
theorem Rep.of_eq_on (h : Rep L m cs)
    (heq : ∀ x, (∃ c ∈ cs, c.addr ≤ x ∧ x < c.addr + 16) ∨
      (L.headNode ≤ x ∧ x < L.headNode + 8) → m' x = m x) : Rep L m' cs := by
  have hnode : ∀ n ∈ L.headNode :: cs.map Chunk.node, ∀ i, i = 0 ∨ i = 4 →
      load32 m' (n + i) = load32 m (n + i) := by grind [load32_congr, Chunk.node]
  refine ⟨h.tiles, h.ring.congr (fun n hn => hnode n hn 4 (Or.inr rfl)) ?_, ?_, h.size_mod⟩
  · intro n hn
    refine hnode n ?_ 0 (Or.inl rfl)
    rcases List.mem_append.mp hn with hn | hn
    · exact List.mem_cons_of_mem _ hn
    · rw [List.mem_singleton.mp hn]
      exact List.mem_cons_self
  · intro c hc
    exact (h.header c hc).congr
      (load32_congr fun x h1 h2 => heq x (Or.inl ⟨c, hc, by omega, by omega⟩))
      (load32_congr fun x h1 h2 => heq x (Or.inl ⟨c, hc, by omega, by omega⟩))

/-- Changing the size and use fields of one chunk leaves the list and the other headers alone. -/
theorem Rep.header_write (h : Rep L m (xs ++ c :: ys)) (m' : Memory)
    (heq : ∀ x, x < c.addr ∨ c.addr + 8 ≤ x → m' x = m x) :
    Segment m' L.headNode ((xs ++ c :: ys).map Chunk.node) L.headNode ∧
      (∀ x ∈ xs, Header m' x) ∧ ∀ y ∈ ys, Header m' y := by
  have hhead := L.headNode_apart
  have hc := h.tiles.mem (c := c) (by simp)
  obtain ⟨hxs, hys⟩ := h.tiles.around
  have hnode : ∀ n ∈ L.headNode :: (xs ++ c :: ys).map Chunk.node, ∀ i, i = 0 ∨ i = 4 →
      load32 m' (n + i) = load32 m (n + i) := by grind [load32_congr, Chunk.node]
  refine ⟨h.ring.congr (fun n hn => hnode n hn 4 (Or.inr rfl)) ?_, ?_, ?_⟩
  · intro n hn
    refine hnode n ?_ 0 (Or.inl rfl)
    rcases List.mem_append.mp hn with hn | hn
    · exact List.mem_cons_of_mem _ hn
    · rw [List.mem_singleton.mp hn]
      exact List.mem_cons_self
  · intro x hx
    have := hxs x hx
    exact (h.header x (by simp [hx])).congr (load32_congr fun z h1 h2 => heq z (by omega))
      (load32_congr fun z h1 h2 => heq z (by omega))
  · intro y hy
    have := hys y hy
    exact (h.header y (by simp [hy])).congr (load32_congr fun z h1 h2 => heq z (by omega))
      (load32_congr fun z h1 h2 => heq z (by omega))

/-- A property of every chunk of a list with one chunk replaced. -/
theorem forall_mem_replace {P : Chunk → Prop} (hxs : ∀ x ∈ xs, P x) (hc : P c)
    (hys : ∀ y ∈ ys, P y) : ∀ x ∈ xs ++ c :: ys, P x := by
  intro x hx
  rcases List.mem_append.mp hx with hx | hx
  · exact hxs x hx
  · grind

/-- The last write of `heap_free`. -/
theorem Rep.setUsed (h : Rep L m (xs ++ c :: ys)) :
    Rep L (store32 m (c.addr + 4) 0) (xs ++ ⟨c.addr, c.size, false⟩ :: ys) := by
  obtain ⟨hring, hxs, hys⟩ := h.header_write (store32 m (c.addr + 4) 0) fun x hx =>
    store32_apply_of_disjoint _ _ (by omega)
  refine ⟨?_, by simpa [Chunk.node] using hring, forall_mem_replace hxs ?_ hys, ?_⟩
  · obtain ⟨b, h1, h2⟩ := tiles_append.mp h.tiles
    exact tiles_append.mpr ⟨b, h1, h2.1, h2.2⟩
  · have hc := h.header c (by simp)
    exact ⟨by rw [load32_store32_of_disjoint _ _ (by dsimp only; omega)]; exact hc.1,
      load32_store32 _ _ _⟩
  · grind [h.size_mod]

/-- The chunk behind a chunk begins where that one ends. -/
theorem Rep.next_addr (h : Rep L m (xs ++ c :: d :: ys)) : d.addr = c.addr + 16 + c.size := by
  obtain ⟨b, -, hb⟩ := tiles_append.mp h.tiles
  rw [hb.1, hb.2.1]

/-- A chunk that absorbs the next one writes its size and list nodes. -/
theorem Rep.absorb_apply (h : Rep L m (xs ++ c :: d :: ys))
    (hx : ¬InNodes L (xs ++ c :: d :: ys) x) :
    absorb m c.addr d.addr x = store32 m c.addr (load32 m c.addr + (16 + load32 m d.addr)) x := by
  have hend := L.pool_end
  have hdmem := h.tiles.mem (c := d) (by simp)
  have hcd := h.next_addr
  have hnode : offset d.addr 8 = d.node := offset_eq (by omega)
  obtain ⟨hring, -⟩ := h.header_write
    (store32 m c.addr (load32 m c.addr + (16 + load32 m d.addr))) fun x hx =>
    store32_apply_of_disjoint _ _ (by omega)
  rw [List.map_append, List.map_cons, List.map_cons] at hring
  have hlink := (segment_append.mp hring).2
  obtain ⟨hnodes, -⟩ := not_inNodes_iff.mp hx
  have hxc := hnodes c (by simp)
  have hxd := hnodes d (by simp)
  unfold absorb
  rw [hnode]
  refine listDel_apply (p := c.node) ?_ hlink.1.2 (Or.inl ?_) ?_ ?_
    (next_of_inNodes hlink.2.next_mem (fun y hy => by simp [hy]) hx)
  all_goals
    unfold Chunk.node
    omega

/-- A chunk absorbs the chunk behind it. -/
theorem Rep.join (h : Rep L m (xs ++ c :: d :: ys)) :
    Rep L (absorb m c.addr d.addr) (xs ++ ⟨c.addr, c.size + 16 + d.size, c.used⟩ :: ys) := by
  have hend := L.pool_end
  have hdmem := h.tiles.mem (c := d) (by simp)
  have hcd := h.next_addr
  have hc := h.header c (by simp)
  have hd := h.header d (by simp)
  have hsize : c.size + (16 + d.size) < 2 ^ 32 := by omega
  set m₁ := store32 m c.addr (load32 m c.addr + (16 + load32 m d.addr)) with hm₁
  obtain ⟨hring, hx₁, hy₁⟩ := h.header_write m₁ fun x hx =>
    store32_apply_of_disjoint _ _ (by omega)
  -- size and use of the chunks, once the list has changed
  have hword (e : Chunk) (he : e ∈ xs ++ c :: d :: ys) (i : Nat) (hi : i = 0 ∨ i = 4) :
      load32 (absorb m c.addr d.addr) (e.addr + i) = load32 m₁ (e.addr + i) :=
    load32_congr fun x h1 h2 => h.absorb_apply (h.tiles.not_inNodes he (by omega) (by omega))
  have hkept (e : Chunk) (he : e ∈ xs ++ c :: d :: ys) (hh : Header m₁ e) :
      Header (absorb m c.addr d.addr) e :=
    hh.congr (hword e he 0 (Or.inl rfl)) (hword e he 4 (Or.inr rfl))
  have hc₁ : load32 m₁ c.addr = c.size + 16 + d.size := by
    rw [hm₁, load32_store32, hc.1, hd.1, Nat.mod_eq_of_lt hsize]
    omega
  have hc₁' : load32 m₁ (c.addr + 4) = c.used.toNat := by
    rw [hm₁, load32_store32_of_disjoint _ _ (by omega), hc.2]
  -- the list without the node of `d`
  have hring' : Segment m₁ L.headNode (xs.map Chunk.node ++ c.node :: d.node :: ys.map Chunk.node)
      L.headNode := by simpa using hring
  have hapart :
      (L.headNode :: (xs.map Chunk.node ++ c.node :: d.node :: ys.map Chunk.node)).Pairwise
      NodeApart := by simpa using tiles_nodeApart h.tiles
  have hdel := listDel_ring (by unfold Chunk.node; omega) hring' hapart
  have habsorb : absorb m c.addr d.addr = listDel m₁ d.node :=
    congrArg (listDel m₁) (offset_eq (by omega))
  refine ⟨?_, ?_, ?_, ?_⟩
  · obtain ⟨b, h1, h2, -, h4⟩ := tiles_append.mp h.tiles
    refine tiles_append.mpr ⟨b, h1, h2, ?_⟩
    rwa [show b + 16 + (c.size + 16 + d.size) = b + 16 + c.size + 16 + d.size by omega]
  · rw [habsorb]
    simpa [Chunk.node] using hdel
  · exact forall_mem_replace (fun x hx => hkept x (by simp [hx]) (hx₁ x hx))
      ⟨(hword c (by simp) 0 (Or.inl rfl)).trans hc₁, (hword c (by simp) 4 (Or.inr rfl)).trans hc₁'⟩
      fun y hy => hkept y (by simp [hy]) (hy₁ y (by simp [hy]))
  · grind [h.size_mod]

/-- The header of a new chunk is written into the payload of a chunk. -/
theorem Rep.newHeader (h : Rep L m (xs ++ c :: ys)) (new v : Nat) (hlo : c.addr + 16 ≤ new)
    (hhi : new + 8 ≤ c.addr + 16 + c.size) :
    Rep L (store32 (store32 m new v) (new + 4) 0) (xs ++ c :: ys) := by
  have hcmem := h.tiles.mem (c := c) (by simp)
  have hhead := L.headNode_apart
  refine h.of_eq_on fun x hx => ?_
  rw [store32_apply_of_disjoint _ _ ?_, store32_apply_of_disjoint _ _ ?_]
  all_goals
    rcases hx with ⟨e, he, hlo, hhi⟩ | hx
    · rcases h.tiles.apart he (d := c) (by simp) with rfl | h | h <;> omega
    · omega

section Split

variable {allocSize alignedSize : Nat}

/-- What the allocation has written when the new chunk enters the list. -/
def carved (m : Memory) (chunk alignedSize : Nat) : Memory :=
  let newChunk := chunk + (16 + alignedSize)
  store32 (store32 m newChunk (load32 m chunk + (2 ^ 32 - (16 + alignedSize)))) (newChunk + 4) 0

theorem carve_eq (hfits : c.addr + (16 + alignedSize) + 16 ≤ L.pool + heapTotalSize) :
    carve L m c.addr allocSize alignedSize =
      store32 (store32 (memset (listAdd (carved m c.addr alignedSize)
        (c.addr + (16 + alignedSize) + 8) (c.addr + 8)) (c.addr + 16) 0 allocSize)
        (c.addr + 4) 1) c.addr alignedSize := by
  unfold carve carved
  dsimp only
  rw [if_pos hfits]

/-- After the list has changed, only the used chunk is written. -/
theorem carve_later (hfits : c.addr + (16 + alignedSize) + 16 ≤ L.pool + heapTotalSize)
    (halloc : allocSize ≤ alignedSize) (hx : x < 2 ^ 32)
    (hout : x < c.addr ∨ c.addr + 8 ≤ x ∧ x < c.addr + 16 ∨ c.addr + (16 + alignedSize) ≤ x) :
    carve L m c.addr allocSize alignedSize x = listAdd (carved m c.addr alignedSize)
      (c.addr + (16 + alignedSize) + 8) (c.addr + 8) x := by
  have hend := L.pool_end
  rw [carve_eq hfits, store32_apply_of_disjoint _ _ (by omega),
    store32_apply_of_disjoint _ _ (by omega), memset_of_forall_ne _ hx]
  intro i hi
  omega

/-- Allocation writes the used chunk, the header behind it and list nodes. -/
theorem Rep.carve_apply (h : Rep L m (xs ++ c :: ys)) (hfit : 16 + alignedSize ≤ c.size)
    (halloc : allocSize ≤ alignedSize) (hx : x < 2 ^ 32)
    (hout : x < c.addr ∨ c.addr + 32 + alignedSize ≤ x) (hn : ¬InNodes L (xs ++ c :: ys) x) :
    carve L m c.addr allocSize alignedSize x = m x := by
  have hcmem := h.tiles.mem (c := c) (by simp)
  have h₁ := h.newHeader (c.addr + (16 + alignedSize))
    (load32 m c.addr + (2 ^ 32 - (16 + alignedSize))) (by omega) (by omega)
  have hring := h₁.ring
  rw [List.map_append, List.map_cons] at hring
  have hnext := (segment_append.mp hring).2.next_mem
  rw [carve_later (by omega) halloc hx (by omega)]
  refine Eq.trans (listAdd_apply (by omega) (by omega) (Or.inr (by omega)) (by omega) (by omega)
    (next_of_inNodes hnext (fun y hy => by simp [hy]) hn)) ?_
  unfold carved
  rw [store32_apply_of_disjoint _ _ (by omega), store32_apply_of_disjoint _ _ (by omega)]

/-- The ring with the new chunk. -/
theorem Rep.carve_ring (h : Rep L m (xs ++ c :: ys)) (hfit : 16 + alignedSize ≤ c.size)
    (halloc : allocSize ≤ alignedSize) :
    Segment (carve L m c.addr allocSize alignedSize) L.headNode
      (xs.map Chunk.node ++ c.node :: (c.addr + (16 + alignedSize) + 8) :: ys.map Chunk.node)
      L.headNode := by
  have hend := L.pool_end
  have hheadapart := L.headNode_apart
  have hheadend := L.headNode_end
  have hcmem := h.tiles.mem (c := c) (by simp)
  set new := c.addr + (16 + alignedSize) with hnew
  have h₁ : Rep L (carved m c.addr alignedSize) (xs ++ c :: ys) :=
    h.newHeader _ _ (by omega) (by omega)
  have hring₁ : Segment (carved m c.addr alignedSize) L.headNode
      (xs.map Chunk.node ++ c.node :: ys.map Chunk.node) L.headNode := by simpa using h₁.ring
  have hapart : (L.headNode :: (xs.map Chunk.node ++ c.node :: ys.map Chunk.node)).Pairwise
      NodeApart := by simpa using tiles_nodeApart h.tiles
  -- a node of the list is the head or that of a chunk
  have hnode (n : Nat) (hn : n ∈ L.headNode :: (xs.map Chunk.node ++ c.node :: ys.map Chunk.node)) :
      n = L.headNode ∨ ∃ e ∈ xs ++ c :: ys, n = e.addr + 8 := by grind [Chunk.node]
  have hnewapart : ∀ n ∈ L.headNode :: (xs.map Chunk.node ++ c.node :: ys.map Chunk.node),
      NodeApart (new + 8) n := by
    intro n hn
    unfold NodeApart
    rcases hnode n hn with rfl | ⟨e, he, rfl⟩
    · omega
    · rcases h.tiles.apart he (d := c) (by simp) with rfl | h | h <;> omega
  have hring₂ := listAdd_ring (n := new + 8) (by omega) (by omega)
    (by unfold Chunk.node; omega) (by unfold Chunk.node; omega) hring₁ hnewapart hapart
  -- no later write reaches a list node
  have hword (n : Nat) (hn : n = new + 8 ∨ n = L.headNode ∨ ∃ e ∈ xs ++ c :: ys, n = e.addr + 8)
      (i : Nat) (hi : i = 0 ∨ i = 4) : load32 (carve L m c.addr allocSize alignedSize) (n + i) =
        load32 (listAdd (carved m c.addr alignedSize) (new + 8) c.node) (n + i) := by
    refine load32_congr fun x h1 h2 => carve_later (by omega) halloc ?_ ?_
    all_goals
      rcases hn with rfl | rfl | ⟨e, he, rfl⟩
      · omega
      · omega
      · have := h.tiles.mem he
        rcases h.tiles.apart he (d := c) (by simp) with rfl | h | h <;> omega
  have hmem (n : Nat) (hn : n ∈ L.headNode :: (xs.map Chunk.node ++ c.node :: (new + 8) ::
      ys.map Chunk.node)) : n = new + 8 ∨ n = L.headNode ∨ ∃ e ∈ xs ++ c :: ys, n = e.addr + 8 := by
    by_cases hnn : n = new + 8
    · exact Or.inl hnn
    · refine Or.inr (hnode n ?_)
      simpa [hnn] using hn
  refine hring₂.congr (fun n hn => hword n (hmem n hn) 4 (Or.inr rfl)) fun n hn => ?_
  refine hword n (hmem n ?_) 0 (Or.inl rfl)
  rcases List.mem_append.mp hn with hn | hn
  · exact List.mem_cons_of_mem _ hn
  · rw [List.mem_singleton.mp hn]
    exact List.mem_cons_self

/-- Allocation cuts a chunk in two: the front is used, the rest is free. -/
theorem Rep.split (h : Rep L m (xs ++ c :: ys)) (hfit : 16 + alignedSize ≤ c.size)
    (halloc : allocSize ≤ alignedSize) (hmod : alignedSize % 8 = 0) :
    Rep L (carve L m c.addr allocSize alignedSize)
      (xs ++ ⟨c.addr, alignedSize, true⟩ ::
        ⟨c.addr + 16 + alignedSize, c.size - (16 + alignedSize), false⟩ :: ys) := by
  have hend := L.pool_end
  have hcmem := h.tiles.mem (c := c) (by simp)
  obtain ⟨hxs, hys⟩ := h.tiles.around
  have hfits : c.addr + (16 + alignedSize) + 16 ≤ L.pool + heapTotalSize := by omega
  -- the headers of the other chunks stay as they are
  have hkept (e : Chunk) (he : e ∈ xs ++ c :: ys)
      (hout : e.addr + 16 ≤ c.addr ∨ c.addr + 16 + c.size ≤ e.addr) :
      Header (carve L m c.addr allocSize alignedSize) e := by
    have hmem := h.tiles.mem he
    refine (h.header e he).congr (load32_congr fun x h1 h2 => ?_)
      (load32_congr fun x h1 h2 => ?_)
    · grind [h.carve_apply, h.tiles.not_inNodes]
    · grind [h.carve_apply, h.tiles.not_inNodes]
  refine ⟨?_, ?_, forall_mem_replace (fun x hx => ?_) ?_ fun y hy => ?_, ?_⟩
  · obtain ⟨b, h1, h2, h3⟩ := tiles_append.mp h.tiles
    refine tiles_append.mpr ⟨b, h1, h2, by rw [h2], ?_⟩
    rwa [show b + 16 + alignedSize + 16 + (c.size - (16 + alignedSize)) = b + 16 + c.size by omega]
  · have hring := h.carve_ring hfit halloc
    simpa [Chunk.node, Nat.add_assoc] using hring
  · have := hxs x hx
    exact hkept x (by simp [hx]) (by omega)
  · constructor
    · rw [carve_eq hfits, load32_store32, Nat.mod_eq_of_lt (by omega)]
    · rw [carve_eq hfits, load32_store32_of_disjoint _ _ (by dsimp only; omega), load32_store32]
      rfl
  · rcases List.mem_cons.mp hy with rfl | hy
    · -- the header of the new chunk, which the list does not touch
      have hc := (h.header c (by simp)).1
      have hword (i : Nat) (hi : i = 0 ∨ i = 4) :
          load32 (carve L m c.addr allocSize alignedSize) (c.addr + 16 + alignedSize + i) =
            load32 (carved m c.addr alignedSize) (c.addr + (16 + alignedSize) + i) := by
        rw [Nat.add_assoc c.addr 16 alignedSize]
        refine load32_congr fun x h1 h2 => ?_
        rw [carve_later hfits halloc (by omega) (by omega)]
        have hring := (h.newHeader (c.addr + (16 + alignedSize))
          (load32 m c.addr + (2 ^ 32 - (16 + alignedSize))) (by omega) (by omega)).ring
        rw [List.map_append, List.map_cons] at hring
        have hhead := L.headNode_apart
        have hout : ¬InNodes L ys x := by grind [not_inNodes_iff]
        exact listAdd_apply (by omega) (by omega) (Or.inr (by omega)) (by omega) (by omega)
          (next_of_inNodes (segment_append.mp hring).2.next_mem (List.Subset.refl _) hout)
      refine ⟨(hword 0 (Or.inl rfl)).trans ?_, (hword 4 (Or.inr rfl)).trans ?_⟩
      · grind [load32_store32_of_disjoint, load32_store32, carved]
      · exact load32_store32 _ _ _
    · have := hys y hy
      exact hkept y (by simp [hy]) (by omega)
  · grind [h.size_mod]

end Split

/-! ## Searching -/

theorem findChunk_eq {a req : Nat} (hseg : Segment m a (ys.map Chunk.node) L.headNode)
    (hheader : ∀ c ∈ ys, Header m c) (hne : ∀ c ∈ ys, c.node ≠ L.headNode) {fuel : Nat}
    (hfuel : ys.length < fuel) :
    findChunk L m req fuel (load32 m (a + 4)) =
      some ((ys.find? fun c => req ≤ c.size && !c.used).map Chunk.addr) := by
  induction ys generalizing a fuel with
  | nil =>
    obtain ⟨fuel, rfl⟩ := Nat.exists_eq_succ_of_ne_zero (Nat.ne_of_gt hfuel)
    rw [hseg.1, findChunk, if_pos rfl]
    rfl
  | cons c ys ih =>
    obtain ⟨fuel, rfl⟩ := Nat.exists_eq_succ_of_ne_zero (Nat.ne_of_gt (Nat.zero_lt_of_lt hfuel))
    obtain ⟨hsize, hused⟩ := hheader c List.mem_cons_self
    have hzero : c.node ≠ 0 := by unfold Chunk.node; omega
    have haddr : c.node - 8 = c.addr := by unfold Chunk.node; omega
    have hflag : (load32 m (c.addr + 4) == 0) = !c.used := by
      rw [hused]
      cases c.used <;> rfl
    rw [hseg.1.1, findChunk, if_neg (hne c List.mem_cons_self), if_neg hzero, haddr, hsize, hflag,
      List.find?_cons]
    cases hfit : (decide (req ≤ c.size) && !c.used) with
    | true => rfl
    | false =>
      exact ih hseg.2 (fun d hd => hheader d (List.mem_cons_of_mem _ hd))
        (fun d hd => hne d (List.mem_cons_of_mem _ hd)) (by simpa using hfuel)

theorem chunksFrom_eq {a : Nat} (hseg : Segment m a (ys.map Chunk.node) L.headNode)
    (hheader : ∀ c ∈ ys, Header m c) (hne : ∀ c ∈ ys, c.node ≠ L.headNode) {fuel : Nat}
    (hfuel : ys.length < fuel) : chunksFrom L m fuel (load32 m (a + 4)) = some ys := by
  induction ys generalizing a fuel with
  | nil =>
    obtain ⟨fuel, rfl⟩ := Nat.exists_eq_succ_of_ne_zero (Nat.ne_of_gt hfuel)
    rw [hseg.1, chunksFrom, if_pos rfl]
  | cons c ys ih =>
    obtain ⟨fuel, rfl⟩ := Nat.exists_eq_succ_of_ne_zero (Nat.ne_of_gt (Nat.zero_lt_of_lt hfuel))
    obtain ⟨hsize, hused⟩ := hheader c List.mem_cons_self
    have haddr : c.node - 8 = c.addr := by unfold Chunk.node; omega
    have hflag : (load32 m (c.addr + 4) != 0) = c.used := by
      rw [hused]
      cases c.used <;> rfl
    rw [hseg.1.1, chunksFrom, if_neg (hne c List.mem_cons_self), haddr, hsize, hflag,
      ih hseg.2 (fun d hd => hheader d (List.mem_cons_of_mem _ hd))
        (fun d hd => hne d (List.mem_cons_of_mem _ hd)) (by simpa using hfuel)]
    rfl

theorem Rep.node_ne (h : Rep L m cs) {c : Chunk} (hc : c ∈ cs) : c.node ≠ L.headNode := by
  have := h.tiles.mem hc
  have := L.headNode_apart
  unfold Chunk.node
  omega

theorem Rep.length_lt (h : Rep L m cs) : cs.length < heapFuel := by
  have := h.tiles.length_le
  unfold heapFuel
  unfold heapTotalSize at this
  omega

/-- The chunk list read from memory. -/
theorem Rep.chunks {h : Heap} (hrep : Rep L h.mem cs) : h.chunks L = some cs :=
  chunksFrom_eq hrep.ring hrep.header (fun _ => hrep.node_ne) hrep.length_lt

theorem Rep.findChunk {req : Nat} (h : Rep L m cs) :
    findChunk L m req heapFuel (load32 m (L.headNode + 4)) =
      some ((cs.find? fun c => req ≤ c.size && !c.used).map Chunk.addr) :=
  findChunk_eq h.ring h.header (fun _ => h.node_ne) h.length_lt

end Rep

end Ukernel.Mm
