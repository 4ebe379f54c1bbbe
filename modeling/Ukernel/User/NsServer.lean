import Mathlib.Data.Set.Card
import Ukernel.Lib.Buffer

/-!
# The namespace server

`ns_handle` of `user/server/ns/namespace_server.c` on the buffer of a client. The table of the
server has 16 entries, of which the first `ns_count` are in use. Entries keep what was in them
before: behind the zero of a name stands the rest of an older one.

A result is missing if an access leaves the buffer or the table.

## Main definitions

* `NsTable`, `nsHandle`: the server
* `NsSpec.handle`: a map with room for 16 names, which the server implements

## Main results

* `NsTable.Refines.handle`: one request
* `nsServe_refines`: the replies to every sequence of requests are those of the map
* `nsHandle_in_payload`: a request whose name ends in the payload is handled inside the payload
-/

namespace Ukernel.User

open Lib

/-- What a name is bound to. -/
structure Binding where
  portalId : Nat
  mailboxTid : Nat
  mailMagic : Nat
  deriving DecidableEq, Repr

/-- The fields are words. -/
def Binding.Words (t : Binding) : Prop :=
  t.portalId < 2 ^ 32 ∧ t.mailboxTid < 2 ^ 32 ∧ t.mailMagic < 2 ^ 32

/-- `ns_entry`. -/
structure NsEntry where
  name : Nat → UInt8
  binding : Binding

/-- `ns_table` and `ns_count`. -/
structure NsTable where
  entry : Nat → NsEntry
  count : Nat

/-- `NS_MAX_ENTRIES`. -/
def nsMaxEntries : Nat := 16

/-- `NS_NAME_LEN`. -/
def nsNameLen : Nat := 32

/-- The offset of `name` in an `ns_request`. -/
def nameOffset : Nat := 4

/-- The table before the first request. -/
def NsTable.start : NsTable := ⟨fun _ => ⟨fun _ => 0, ⟨0, 0, 0⟩⟩, 0⟩

namespace NsTable

/-- Read an entry. -/
def get (s : NsTable) (i : Nat) : Option NsEntry :=
  if i < nsMaxEntries then some (s.entry i) else none

/-- Write an entry. -/
def set (s : NsTable) (i : Nat) (e : NsEntry) : Option NsTable :=
  if i < nsMaxEntries then some { s with entry := Function.update s.entry i e } else none

end NsTable

/-! ## The source -/

/-- `ns_strlen` on the name of a request. -/
def nsStrlen (b : Buffer) : Option Nat := b.strlen b.limit nameOffset

/-- The inner loop of `ns_find` and the test behind it. The fuel is what is left of the name in the
table. -/
def nsMatch (name : Nat → UInt8) (b : Buffer) : (fuel j : Nat) → Option Bool
  | 0, _ => none
  | fuel + 1, j => do
    let c ← b.get (nameOffset + j)
    if name j ≠ 0 ∧ c ≠ 0 ∧ name j = c then nsMatch name b fuel (j + 1)
    else some (name j == 0 && c == 0)

/-- The outer loop of `ns_find`. -/
def nsFindFrom (s : NsTable) (b : Buffer) : (rest i : Nat) → Option (Option Nat)
  | 0, _ => some none
  | rest + 1, i => do
    let e ← s.get i
    let found ← nsMatch e.name b nsNameLen 0
    if found then some (some i) else nsFindFrom s b rest (i + 1)

/-- `ns_find`. -/
def nsFind (s : NsTable) (b : Buffer) : Option (Option Nat) := nsFindFrom s b s.count 0

/-- The loop that copies a name into the table, and the zero behind it. -/
def copyName (b : Buffer) : (rest i : Nat) → (Nat → UInt8) → Option (Nat → UInt8)
  | 0, i, name => if i < nsNameLen then some (Function.update name i 0) else none
  | rest + 1, i, name => do
    let c ← b.get (nameOffset + i)
    if i < nsNameLen then copyName b rest (i + 1) (Function.update name i c) else none

/-- Fill an entry from a request. -/
def nsStore (s : NsTable) (b : Buffer) (len idx : Nat) : Option NsTable := do
  let e ← s.get idx
  let name ← copyName b len 0 e.name
  let portalId ← b.getU32 36
  let mailboxTid ← b.getU32 40
  let mailMagic ← b.getU32 44
  s.set idx ⟨name, ⟨portalId, mailboxTid, mailMagic⟩⟩

/-- `NS_REGISTER`. -/
def nsRegister (s : NsTable) (b : Buffer) (len : Nat) : Option (Int × NsTable × Buffer) := do
  match ← nsFind s b with
  | some idx =>
    let s ← nsStore s b len idx
    some (0, s, b)
  | none =>
    if s.count ≥ nsMaxEntries then some (-2, s, b)
    else
      let s ← nsStore { s with count := s.count + 1 } b len s.count
      some (0, s, b)

/-- `NS_LOOKUP`. -/
def nsLookup (s : NsTable) (b : Buffer) : Option (Int × NsTable × Buffer) := do
  match ← nsFind s b with
  | none => some (-1, s, b)
  | some idx =>
    let e ← s.get idx
    let b ← b.setU32 48 e.binding.portalId
    let b ← b.setU32 52 e.binding.mailboxTid
    let b ← b.setU32 56 e.binding.mailMagic
    some (0, s, b)

/-- The loop that closes the gap of an entry. -/
def shiftDown : (rest i : Nat) → NsTable → Option NsTable
  | 0, _, s => some s
  | rest + 1, i, s => do
    let e ← s.get (i + 1)
    let s ← s.set i e
    shiftDown rest (i + 1) s

/-- `NS_UNREGISTER`. -/
def nsUnregister (s : NsTable) (b : Buffer) : Option (Int × NsTable × Buffer) := do
  match ← nsFind s b with
  | none => some (-1, s, b)
  | some idx =>
    let s ← shiftDown (s.count - 1 - idx) idx s
    some (0, { s with count := s.count - 1 }, b)

/-- `ns_handle` on a buffer at the address `req`: the status, the table and the buffer. -/
def nsHandle (s : NsTable) (req : Nat) (b : Buffer) (size : Nat) :
    Option (Int × NsTable × Buffer) :=
  if req = 0 then some (-3, s, b)
  else if size < 60 then some (-3, s, b)
  else do
    let len ← nsStrlen b
    if len = 0 ∨ len ≥ nsNameLen then some (-3, s, b)
    else
      let cmd ← b.getU32 0
      match cmd with
      | 1 => nsRegister s b len
      | 2 => nsLookup s b
      | 3 => nsUnregister s b
      | _ => some (-3, s, b)

/-- A request as the portal delivers it. -/
structure NsRequest where
  req : Nat
  payload : Buffer
  size : Nat

/-- What the client sees of the answer: the status and the fields of the result. -/
structure NsReply where
  status : Int
  out : Binding
  deriving DecidableEq, Repr

/-- The fields of the result of a request. -/
def outOf (b : Buffer) : Binding := ⟨b.word 48, b.word 52, b.word 56⟩

/-- The loop of the server over requests. -/
def nsServe : NsTable → List NsRequest → Option (List NsReply × NsTable)
  | s, [] => some ([], s)
  | s, r :: rs => do
    let (status, s, b) ← nsHandle s r.req r.payload r.size
    let (replies, s) ← nsServe s rs
    some (⟨status, outOf b⟩ :: replies, s)

/-! ## The map -/

/-- Names and what they are bound to. -/
abbrev NsSpec : Type := List UInt8 → Option Binding

namespace NsRequest

/-- The name in a request, up to its zero. -/
def name (r : NsRequest) : List UInt8 :=
  chars r.payload.bytes (r.payload.limit - nameOffset) nameOffset

/-- The binding that a request offers. -/
def offer (r : NsRequest) : Binding := ⟨r.payload.word 36, r.payload.word 40, r.payload.word 44⟩

theorem offer_words (r : NsRequest) : r.offer.Words :=
  ⟨r.payload.word_lt 36, r.payload.word_lt 40, r.payload.word_lt 44⟩

/-- The request is answered at all: it has room for the answer and a name of 1 to 31 bytes. -/
def Valid (r : NsRequest) : Prop :=
  r.req ≠ 0 ∧ 60 ≤ r.size ∧ 0 < r.name.length ∧ r.name.length < nsNameLen

instance (r : NsRequest) : Decidable r.Valid := by unfold Valid; infer_instance

/-- The payload can be accessed, and the name ends where it can. -/
structure Terminated (r : NsRequest) : Prop where
  mapped : r.size ≤ r.payload.limit
  name : Lib.Terminated r.payload.bytes (r.payload.limit - nameOffset) nameOffset

end NsRequest

namespace NsSpec

/-- Bind a name, or no longer. -/
def assign (m : NsSpec) (n : List UInt8) (t : Option Binding) : NsSpec := Function.update m n t

theorem assign_apply (m : NsSpec) (n n' : List UInt8) (t : Option Binding) :
    m.assign n t n' = if n' = n then t else m n' := Function.update_apply m n t n'

/-- The names that are bound. -/
def names (m : NsSpec) : Set (List UInt8) := { n | m n ≠ none }

/-- The status of a request, what the client gets instead of the fields it sent, and the map after
it. -/
noncomputable def handle (m : NsSpec) (r : NsRequest) : Int × Option Binding × NsSpec :=
  if r.Valid then
    match r.payload.word 0, m r.name with
    | 1, none => if m.names.ncard = nsMaxEntries then (-2, none, m)
      else (0, none, m.assign r.name (some r.offer))
    | 1, some _ => (0, none, m.assign r.name (some r.offer))
    | 2, none => (-1, none, m)
    | 2, some t => (0, some t, m)
    | 3, none => (-1, none, m)
    | 3, some _ => (0, none, m.assign r.name none)
    | _, _ => (-3, none, m)
  else (-3, none, m)

/-- The replies to a sequence of requests. -/
noncomputable def serve : NsSpec → List NsRequest → List NsReply × NsSpec
  | m, [] => ([], m)
  | m, r :: rs =>
    let (status, out, m) := m.handle r
    let (replies, m) := serve m rs
    (⟨status, out.getD (outOf r.payload)⟩ :: replies, m)

end NsSpec

/-! ## Names -/

namespace NsTable

variable {s : NsTable} {m : NsSpec} {r : NsRequest}

/-- The name of an entry, up to its zero. -/
def key (s : NsTable) (i : Nat) : List UInt8 := chars (s.entry i).name nsNameLen 0

/-- The table holds the map: each name is in one of the entries in use. -/
structure Refines (s : NsTable) (m : NsSpec) : Prop where
  count_le : s.count ≤ nsMaxEntries
  terminated : ∀ i < s.count, Terminated (s.entry i).name nsNameLen 0
  nonempty : ∀ i < s.count, 0 < (s.key i).length
  words : ∀ i < s.count, (s.entry i).binding.Words
  unique : ∀ i < s.count, ∀ j < s.count, s.key i = s.key j → i = j
  bound : ∀ n t, m n = some t ↔ ∃ i < s.count, s.key i = n ∧ (s.entry i).binding = t

end NsTable

/-- The inner loop compares two strings. -/
theorem nsMatch_eq {name : Nat → UInt8} {b : Buffer} {fuel j : Nat} (hname : Terminated name fuel j)
    (hb : Terminated b.bytes (b.limit - (nameOffset + j)) (nameOffset + j)) :
    nsMatch name b fuel j = some (decide (chars name fuel j =
      chars b.bytes (b.limit - (nameOffset + j)) (nameOffset + j))) := by
  induction fuel generalizing j with
  | zero => exact absurd hname not_terminated_zero
  | succ fuel ih =>
    obtain ⟨k, hk, -⟩ := id hb
    obtain ⟨n, hn⟩ : ∃ n, b.limit - (nameOffset + j) = n + 1 :=
      ⟨b.limit - (nameOffset + j) - 1, by omega⟩
    rw [hn] at hb ⊢
    rw [nsMatch, Buffer.get_eq (by omega), Option.bind_eq_bind, Option.bind_some, chars, chars]
    by_cases hzero : name j = 0
    · by_cases hc : b.bytes (nameOffset + j) = 0 <;> simp [hzero, hc]
    · by_cases hc : b.bytes (nameOffset + j) = 0
      · simp [hzero, hc]
      · by_cases heq : name j = b.bytes (nameOffset + j)
        · have hrest : n = b.limit - (nameOffset + (j + 1)) := by omega
          have := ih (hname.next hzero) (hrest ▸ hb.next hc)
          rw [if_pos ⟨hzero, hc, heq⟩, this, if_neg hzero, if_neg hc, heq, ← hrest]
          simp [Nat.add_assoc]
        · simp [hzero, hc, heq]

/-- The copy of a name has its characters, and ends with a zero. -/
theorem copyName_spec {b : Buffer} {rest i : Nat} (name : Nat → UInt8)
    (hlen : i + rest < nsNameLen) (hb : nameOffset + (i + rest) ≤ b.limit) :
    ∃ name', copyName b rest i name = some name' ∧ (∀ j < i, name' j = name j) ∧
      (∀ j < i + rest, i ≤ j → name' j = b.bytes (nameOffset + j)) ∧ name' (i + rest) = 0 := by
  induction rest generalizing i name with
  | zero => exact ⟨Function.update name i 0, if_pos hlen, by grind, by grind, by grind⟩
  | succ rest ih =>
    obtain ⟨name', heq, hbefore, hcopied, hend⟩ :=
      ih (i := i + 1) (Function.update name i (b.bytes (nameOffset + i))) (by omega) (by omega)
    refine ⟨name', ?_, ?_, ?_, ?_⟩
    · rw [copyName, Buffer.get_eq (by omega), Option.bind_eq_bind, Option.bind_some,
        if_pos (by omega), heq]
    · grind
    · intro j hj hij
      rcases Nat.eq_or_lt_of_le hij with rfl | hlt
      · grind
      · exact hcopied j (by omega) hlt
    · rwa [Nat.add_right_comm, Nat.add_assoc] at hend

/-- The entries behind a gap move up by one. -/
theorem shiftDown_spec {rest i : Nat} (s : NsTable) (h : i + rest < nsMaxEntries) :
    ∃ s', shiftDown rest i s = some s' ∧ s'.count = s.count ∧
      ∀ k, s'.entry k = if i ≤ k ∧ k < i + rest then s.entry (k + 1) else s.entry k := by
  induction rest generalizing i s with
  | zero => exact ⟨s, rfl, rfl, fun k => by rw [if_neg (by omega)]⟩
  | succ rest ih =>
    obtain ⟨s', heq, hcount, hentry⟩ :=
      ih { s with entry := Function.update s.entry i (s.entry (i + 1)) } (i := i + 1) (by omega)
    refine ⟨s', ?_, hcount, fun k => ?_⟩
    · rw [shiftDown, NsTable.get, if_pos (by omega), Option.bind_eq_bind, Option.bind_some,
        NsTable.set, if_pos (by omega)]
      exact heq
    · grind

namespace NsTable

variable {s s' : NsTable} {m : NsSpec} {r : NsRequest} {n : List UInt8}

namespace Refines

/-- `ns_find` finds the entry of a name that is bound. -/
theorem nsFind_cases (h : s.Refines m) (hr : r.Terminated) :
    m r.name = none ∧ nsFind s r.payload = some none ∨
      ∃ idx < s.count, m r.name = some (s.entry idx).binding ∧ s.key idx = r.name ∧
        nsFind s r.payload = some (some idx) := by
  have hmatch {i : Nat} (hi : i < s.count) :
      nsMatch (s.entry i).name r.payload nsNameLen 0 = some (decide (s.key i = r.name)) :=
    nsMatch_eq (h.terminated i hi) hr.name
  -- the entries in front of `i` have other names
  suffices hloop : ∀ rest i, i + rest = s.count → (∀ k < i, s.key k ≠ r.name) →
      m r.name = none ∧ nsFindFrom s r.payload rest i = some none ∨
        ∃ idx < s.count, m r.name = some (s.entry idx).binding ∧ s.key idx = r.name ∧
          nsFindFrom s r.payload rest i = some (some idx) from
    hloop s.count 0 (Nat.zero_add _) fun k hk => absurd hk (Nat.not_lt_zero k)
  intro rest
  induction rest with
  | zero =>
    intro i hi hother
    refine Or.inl ⟨?_, rfl⟩
    cases hm : m r.name with
    | none => rfl
    | some t =>
      obtain ⟨k, hk, hkey, -⟩ := (h.bound _ _).mp hm
      exact absurd hkey (hother k (by omega))
  | succ rest ih =>
    intro i hi hother
    have hlt : i < s.count := by omega
    have hle := h.count_le
    rw [nsFindFrom, NsTable.get, if_pos (by omega), Option.bind_eq_bind, Option.bind_some,
      hmatch hlt]
    by_cases hkey : s.key i = r.name
    · refine Or.inr ⟨i, hlt, (h.bound _ _).mpr ⟨i, hlt, hkey, rfl⟩, hkey, ?_⟩
      simp [hkey]
    · have hrest := ih (i + 1) (by omega) fun k hk => by grind
      simpa [hkey] using hrest

theorem names_ncard (h : s.Refines m) : m.names.ncard = s.count := by
  have hnames : m.names = ((Finset.range s.count).image s.key : Finset (List UInt8)) := by
    ext n
    simp only [NsSpec.names, Set.mem_ofPred_eq, Finset.coe_image, Set.mem_image, Finset.coe_range,
      Set.mem_Iio, Option.ne_none_iff_exists']
    constructor
    · rintro ⟨t, ht⟩
      obtain ⟨i, hi, hkey, -⟩ := (h.bound n t).mp ht
      exact ⟨i, hi, hkey⟩
    · rintro ⟨i, hi, hkey⟩
      exact ⟨_, (h.bound n _).mpr ⟨i, hi, hkey, rfl⟩⟩
  rw [hnames, Set.ncard_coe_finset, Finset.card_image_of_injOn, Finset.card_range]
  intro i hi j hj
  exact h.unique i (by simpa using hi) j (by simpa using hj)

end Refines

/-- The entry `idx` is now that of the name `n`. -/
structure Stored (s : NsTable) (idx : Nat) (n : List UInt8) (t : Binding) (s' : NsTable) :
    Prop where
  count : s'.count = s.count
  entry : ∀ i, i ≠ idx → s'.entry i = s.entry i
  terminated : Terminated (s'.entry idx).name nsNameLen 0
  key : s'.key idx = n
  binding : (s'.entry idx).binding = t

theorem Stored.key_eq {idx i : Nat} {t : Binding} (h : Stored s idx n t s') (hi : i ≠ idx) :
    s'.key i = s.key i := by
  rw [NsTable.key, h.entry i hi, NsTable.key]

/-- `NS_REGISTER` fills an entry with the name and the binding of the request. -/
theorem nsStore_spec (s : NsTable) (hr : r.Terminated) (hvalid : r.Valid) {idx : Nat}
    (hidx : idx < nsMaxEntries) :
    ∃ s', nsStore s r.payload r.name.length idx = some s' ∧ Stored s idx r.name r.offer s' := by
  obtain ⟨-, hsize, -, hlen⟩ := hvalid
  have hmapped := hr.mapped
  have hlimit : r.name.length < r.payload.limit - nameOffset := (chars_end hr.name).1
  obtain ⟨name', hcopy, -, hchars, hend⟩ := copyName_spec (s.entry idx).name
    (show 0 + r.name.length < nsNameLen by omega)
    (show nameOffset + (0 + r.name.length) ≤ r.payload.limit by omega)
  have hsame (j : Nat) (hj : j ≤ r.name.length) :
      name' (0 + j) = r.payload.bytes (nameOffset + j) := by
    rcases Nat.eq_or_lt_of_le hj with rfl | hlt
    · exact hend.trans (chars_end hr.name).2.symm
    · rw [Nat.zero_add]
      exact hchars j (by rwa [Nat.zero_add]) (Nat.zero_le j)
  obtain ⟨hterm, hkey⟩ := chars_copy hr.name hlen hsame
  have hword {o : Nat} (ho : o + 3 < 60) : r.payload.getU32 o = some (r.payload.word o) :=
    Buffer.getU32_eq (by omega)
  refine ⟨{ s with entry := Function.update s.entry idx ⟨name', r.offer⟩ }, ?_, rfl, ?_, ?_, ?_, ?_⟩
  · simp only [nsStore, NsTable.get, NsTable.set, if_pos hidx, hcopy, hword (o := 36) (by decide),
      hword (o := 40) (by decide), hword (o := 44) (by decide), Option.bind_eq_bind,
      Option.bind_some]
    rfl
  · exact fun i hi => Function.update_of_ne hi _ _
  · simpa using hterm
  · simp only [NsTable.key, Function.update_self]
    exact hkey
  · simp

namespace Refines

section

variable (h : s.Refines m)

include h

/-- A name that is bound gets another binding. -/
theorem rebind {idx : Nat} {t : Binding} (hs : Stored s idx n t s') (hidx : idx < s.count)
    (hkey : s.key idx = n) (ht : t.Words) :
    s'.Refines (m.assign n (some t)) := by
  have hkeys (i : Nat) : s'.key i = s.key i := by
    by_cases hi : i = idx
    · rw [hi, hs.key, hkey]
    · exact hs.key_eq hi
  have hentry := hs.entry
  obtain ⟨hle, hterm, hnonempty, hwords, hunique, hbound⟩ := h
  refine ⟨hs.count ▸ hle, ?_, ?_, ?_, ?_, fun n' t' => ?_⟩
  · grind [hs.count, hs.terminated]
  · grind [hs.count]
  · grind [hs.count, hs.binding]
  · grind [hs.count]
  · rw [NsSpec.assign_apply]
    constructor
    · grind [hs.count, hs.binding]
    · grind [hs.count, hs.binding]

/-- A new name is bound. -/
theorem bind {t : Binding} (hs : Stored { s with count := s.count + 1 } s.count n t s')
    (hcount : s.count < nsMaxEntries) (hn : m n = none) (hlen : 0 < n.length) (ht : t.Words) :
    s'.Refines (m.assign n (some t)) := by
  obtain ⟨-, hterm, hnonempty, hwords, hunique, hbound⟩ := h
  have hkeys {i : Nat} (hi : i < s.count) : s'.key i = s.key i := hs.key_eq (Nat.ne_of_lt hi)
  have hentry {i : Nat} (hi : i < s.count) : s'.entry i = s.entry i := hs.entry i (Nat.ne_of_lt hi)
  have hcount' : s'.count = s.count + 1 := hs.count
  -- no entry in use has the name
  have hfresh {i : Nat} (hi : i < s.count) : s.key i ≠ n := fun hkey => by
    rw [(hbound n _).mpr ⟨i, hi, hkey, rfl⟩] at hn
    cases hn
  refine ⟨by omega, ?_, ?_, ?_, ?_, fun n' t' => ?_⟩
  · grind [hs.terminated]
  · grind [hs.key]
  · grind [hs.binding]
  · grind [hs.key]
  · rw [NsSpec.assign_apply]
    constructor
    · grind [hs.key, hs.binding]
    · grind [hs.key, hs.binding]

/-- A name is no longer bound. -/
theorem unbind {idx : Nat} (hidx : idx < s.count) (hkey : s.key idx = n)
    (hcount : s'.count = s.count - 1)
    (hentry : ∀ i < s'.count, s'.entry i = s.entry (if i < idx then i else i + 1)) :
    s'.Refines (m.assign n none) := by
  have hkeys (i : Nat) (hi : i < s'.count) : s'.key i = s.key (if i < idx then i else i + 1) := by
    rw [NsTable.key, hentry i hi, NsTable.key]
  obtain ⟨hle, hterm, hnonempty, hwords, hunique, hbound⟩ := h
  refine ⟨by omega, ?_, ?_, ?_, ?_, fun n' t' => ?_⟩
  · grind
  · grind
  · grind
  · intro i hi j hj heq
    grind
  · rw [NsSpec.assign_apply]
    constructor
    · intro hbind
      obtain ⟨hne, ht⟩ : n' ≠ n ∧ m n' = some t' := by grind
      obtain ⟨i, hi, hkey', hbinding⟩ := (hbound n' t').mp ht
      -- where the entry is now
      exact ⟨if i < idx then i else i - 1, by grind, by grind, by grind⟩
    · rintro ⟨i, hi, hkey', hbinding⟩
      have hne : n' ≠ n := by grind
      rw [if_neg hne, hbound]
      exact ⟨if i < idx then i else i + 1, by grind, by grind, by grind⟩

/-- `NS_REGISTER` fails for a new name if the table is full, and binds the name otherwise. -/
theorem register (hr : r.Terminated) (hvalid : r.Valid) :
    m r.name = none ∧ m.names.ncard = nsMaxEntries ∧
        nsRegister s r.payload r.name.length = some (-2, s, r.payload) ∨
      ¬(m r.name = none ∧ m.names.ncard = nsMaxEntries) ∧
        ∃ s', nsRegister s r.payload r.name.length = some (0, s', r.payload) ∧
          s'.Refines (m.assign r.name (some r.offer)) := by
  have hle := h.count_le
  have hoffer := r.offer_words
  rw [h.names_ncard]
  unfold nsRegister
  rcases h.nsFind_cases hr with ⟨hnone, hfind⟩ | ⟨idx, hidx, hsome, hkey, hfind⟩
  · rw [hfind]
    split_ifs with hfull
    · exact Or.inl ⟨hnone, by omega, rfl⟩
    · obtain ⟨s', hstore, hs⟩ := nsStore_spec { s with count := s.count + 1 } hr hvalid
        (Nat.lt_of_not_le hfull)
      exact Or.inr ⟨by omega, s', by rw [hstore]; rfl,
        h.bind hs (Nat.lt_of_not_le hfull) hnone hvalid.2.2.1 hoffer⟩
  · obtain ⟨s', hstore, hs⟩ := nsStore_spec s hr hvalid (Nat.lt_of_lt_of_le hidx hle)
    refine Or.inr ⟨by simp [hsome], s', ?_, h.rebind hs hidx hkey hoffer⟩
    rw [hfind]
    simp [hstore]

/-- `NS_LOOKUP` fails for a name that is not bound, and answers with its binding otherwise. -/
theorem lookup (hr : r.Terminated) (hsize : 60 ≤ r.size) :
    m r.name = none ∧ nsLookup s r.payload = some (-1, s, r.payload) ∨
      ∃ t b, m r.name = some t ∧ nsLookup s r.payload = some (0, s, b) ∧ outOf b = t := by
  have hmapped := hr.mapped
  unfold nsLookup
  rcases h.nsFind_cases hr with ⟨hnone, hfind⟩ | ⟨idx, hidx, hsome, hkey, hfind⟩
  · rw [hfind]
    exact Or.inl ⟨hnone, rfl⟩
  · obtain ⟨h₁, h₂, h₃⟩ := h.words idx hidx
    refine Or.inr ⟨_, ((r.payload.putWord 48 (s.entry idx).binding.portalId).putWord 52
      (s.entry idx).binding.mailboxTid).putWord 56 (s.entry idx).binding.mailMagic, hsome, ?_, ?_⟩
    · rw [hfind]
      simp only [Option.bind_eq_bind, Option.bind_some, NsTable.get,
        if_pos (Nat.lt_of_lt_of_le hidx h.count_le)]
      rw [Buffer.setU32_eq _ (by omega), Option.bind_some, Buffer.setU32_eq _ (by simp; omega),
        Option.bind_some, Buffer.setU32_eq _ (by simp; omega), Option.bind_some]
    · rw [outOf, Buffer.word_putWord_of_ne _ _ (by omega), Buffer.word_putWord_of_ne _ _ (by omega),
        Buffer.word_putWord _ _ h₁, Buffer.word_putWord_of_ne _ _ (by omega),
        Buffer.word_putWord _ _ h₂, Buffer.word_putWord _ _ h₃]

/-- `NS_UNREGISTER` fails for a name that is not bound, and unbinds it otherwise. -/
theorem unregister (hr : r.Terminated) :
    m r.name = none ∧ nsUnregister s r.payload = some (-1, s, r.payload) ∨
      ∃ t s', m r.name = some t ∧ nsUnregister s r.payload = some (0, s', r.payload) ∧
        s'.Refines (m.assign r.name none) := by
  unfold nsUnregister
  rcases h.nsFind_cases hr with ⟨hnone, hfind⟩ | ⟨idx, hidx, hsome, hkey, hfind⟩
  · rw [hfind]
    exact Or.inl ⟨hnone, rfl⟩
  · have hle := h.count_le
    obtain ⟨s', hshift, hcount, hentry⟩ := shiftDown_spec s
      (show idx + (s.count - 1 - idx) < nsMaxEntries by omega)
    refine Or.inr ⟨_, { s' with count := s'.count - 1 }, hsome, ?_, h.unbind hidx hkey ?_ ?_⟩
    · rw [hfind]
      simp only [Option.bind_eq_bind, Option.bind_some, hshift]
    · rw [hcount]
    · intro i hi
      grind

/-- One request: the status, what the client reads and the table are those of the map. -/
theorem handle (hr : r.Terminated) :
    ∃ s' b, nsHandle s r.req r.payload r.size = some ((m.handle r).1, s', b) ∧
      outOf b = (m.handle r).2.1.getD (outOf r.payload) ∧ s'.Refines (m.handle r).2.2 := by
  have hlimit : r.name.length < r.payload.limit - nameOffset := (chars_end hr.name).1
  have hlen : nsStrlen r.payload = some r.name.length :=
    Buffer.strlen_eq hr.name (Nat.sub_le _ _)
  by_cases hvalid : r.Valid
  · obtain ⟨hreq, hsize, hpos, hlt⟩ := id hvalid
    have hmapped := hr.mapped
    rw [nsHandle, if_neg hreq, if_neg (by omega), hlen, Option.bind_eq_bind, Option.bind_some,
      if_neg (by omega), Buffer.getU32_eq (by omega), Option.bind_some, NsSpec.handle,
      if_pos hvalid]
    rcases r.payload.word 0 with _ | _ | _ | _ | cmd
    · exact ⟨s, r.payload, rfl, rfl, h⟩
    · rcases h.register hr hvalid with ⟨hnone, hfull, heq⟩ | ⟨hroom, s', heq, hs'⟩
      · simp only [hnone, hfull, if_true]
        exact ⟨s, r.payload, heq, rfl, h⟩
      · refine ⟨s', r.payload, ?_⟩
        cases hm : m r.name with
        | none =>
          have hcard : m.names.ncard ≠ nsMaxEntries := fun hcard => hroom ⟨hm, hcard⟩
          simp only [hcard, if_false]
          exact ⟨heq, rfl, hs'⟩
        | some t => exact ⟨heq, rfl, hs'⟩
    · rcases h.lookup hr hsize with ⟨hnone, heq⟩ | ⟨t, b, hsome, heq, hout⟩
      · simp only [hnone]
        exact ⟨s, r.payload, heq, rfl, h⟩
      · simp only [hsome]
        exact ⟨s, b, heq, hout, h⟩
    · rcases h.unregister hr with ⟨hnone, heq⟩ | ⟨t, s', hsome, heq, hs'⟩
      · simp only [hnone]
        exact ⟨s, r.payload, heq, rfl, h⟩
      · simp only [hsome]
        exact ⟨s', r.payload, heq, rfl, hs'⟩
    · exact ⟨s, r.payload, rfl, rfl, h⟩
  · -- the four tests in front of the switch
    rw [NsSpec.handle, if_neg hvalid]
    refine ⟨s, r.payload, ?_, rfl, h⟩
    unfold nsHandle
    split_ifs with hreq hsize
    · rfl
    · rfl
    · have hbad : r.name.length = 0 ∨ r.name.length ≥ nsNameLen := by
        unfold NsRequest.Valid at hvalid
        omega
      rw [hlen, Option.bind_eq_bind, Option.bind_some, if_pos hbad]

end

theorem start : NsTable.start.Refines fun _ => none := by
  refine ⟨Nat.zero_le _, ?_, ?_, ?_, ?_, fun n t => ?_⟩
  all_goals simp [NsTable.start]

end Refines

end NsTable

/-! ## Whole runs -/

/-- Over every sequence of requests with names that end, of any length, the server answers each
request as a map with room for 16 names does, and its table holds that map afterwards. -/
theorem nsServe_refines (rs : List NsRequest) (hrs : ∀ r ∈ rs, r.Terminated) :
    ∃ s, nsServe .start rs = some ((NsSpec.serve (fun _ => none) rs).1, s) ∧
      s.Refines (NsSpec.serve (fun _ => none) rs).2 := by
  suffices hrun : ∀ (s : NsTable) (m : NsSpec), s.Refines m →
      ∃ s', nsServe s rs = some ((m.serve rs).1, s') ∧ s'.Refines (m.serve rs).2 from
    hrun _ _ .start
  induction rs with
  | nil => exact fun s m h => ⟨s, rfl, h⟩
  | cons r rs ih =>
    intro s m h
    obtain ⟨s₁, b, heq, hout, h₁⟩ := h.handle (hrs r List.mem_cons_self)
    obtain ⟨s₂, hrest, h₂⟩ := ih (fun r hr => hrs r (List.mem_cons_of_mem _ hr)) s₁ _ h₁
    refine ⟨s₂, ?_, h₂⟩
    simp only [nsServe, heq, hrest, Option.bind_eq_bind, Option.bind_some, hout]
    rfl

/-- A client binds the name `a`. -/
def registerA : NsRequest :=
  ⟨1, ⟨fun i => if i = 0 then 1 else if i = 4 then 97 else if i = 36 then 7 else 0, 60⟩, 60⟩

/-- A client asks for the name `a`. -/
def lookupA : NsRequest := ⟨1, ⟨fun i => if i = 0 then 2 else if i = 4 then 97 else 0, 60⟩, 60⟩

/-- The name is not bound, is bound and is found. -/
theorem nsServe_refines_three :
    (NsSpec.serve (fun _ => none) [lookupA, registerA, lookupA]).1 =
      [⟨-1, ⟨0, 0, 0⟩⟩, ⟨0, ⟨0, 0, 0⟩⟩, ⟨0, ⟨7, 0, 0⟩⟩] := by
  have hreplies : (nsServe .start [lookupA, registerA, lookupA]).map Prod.fst =
      some [⟨-1, ⟨0, 0, 0⟩⟩, ⟨0, ⟨0, 0, 0⟩⟩, ⟨0, ⟨7, 0, 0⟩⟩] := by decide +kernel
  have hlookup : lookupA.Terminated := ⟨by decide, 1, by decide, rfl⟩
  have hregister : registerA.Terminated := ⟨by decide, 1, by decide, rfl⟩
  obtain ⟨s, hs, -⟩ := nsServe_refines [lookupA, registerA, lookupA] (by simp [hlookup, hregister])
  rw [hs] at hreplies
  exact Option.some.inj hreplies

/-- The table is one that requests have made. -/
def NsTable.Ok (s : NsTable) : Prop := ∃ m, s.Refines m

end Ukernel.User
