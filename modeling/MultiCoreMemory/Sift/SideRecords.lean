import MultiCoreMemory.Sift.Writer
import MultiCoreMemory.Sift.Reader

/-!
# Records that are not instructions, written and read back
-/

namespace MultiCoreMemory.Sift

open ByteReader SideCall

namespace Reader

variable {fresh : ℕ → UInt8} {r r₁ r₂ : Reader} {a b : List (List UInt8)}

/-- So many rounds of the loop in `Read`, none of which is an instruction or the end. -/
def readRecords (fresh : ℕ → UInt8) (r : Reader) : ℕ → ByteReader Reader
  | 0 => return r
  | n + 1 => do
    let (outcome, r) ← r.readRecord fresh
    check (outcome = .next)
    r.readRecords fresh n

/-- **The reader consumes the records completely and exactly.** -/
def Reads (fresh : ℕ → UInt8) (r : Reader) (records : List (List UInt8)) (r' : Reader) : Prop :=
  ∀ rest, (r.readRecords fresh records.length).run (records.flatten ++ rest) = some (r', rest)

theorem Reads.nil (r : Reader) : Reads fresh r [] r := fun _ => rfl

theorem Reads.cons {record : List UInt8}
    (h : ∀ rest, (r.readRecord fresh).run (record ++ rest) = some ((.next, r₁), rest))
    (ha : Reads fresh r₁ a r₂) : Reads fresh r (record :: a) r₂ := by
  intro rest
  simp [readRecords, h, ha rest]

theorem readRecords_add (r : Reader) (m n : ℕ) :
    r.readRecords fresh (m + n) = (do
      let r ← r.readRecords fresh m
      r.readRecords fresh n) := by
  induction m generalizing r with
  | zero => simp [readRecords]
  | succ m ih => simp [Nat.succ_add, readRecords, ih]

theorem Reads.append (ha : Reads fresh r a r₁) (hb : Reads fresh r₁ b r₂) :
    Reads fresh r (a ++ b) r₂ := by
  intro rest
  rw [List.length_append, readRecords_add, StateT.run_bind, List.flatten_append, List.append_assoc,
    ha]
  exact hb rest

theorem run_readRecord_other (r : Reader) (type : RecOtherType) (size : UInt32)
    (bytes : List UInt8) :
    (r.readRecord fresh).run (otherHeader type size ++ bytes) =
      (r.readOther fresh (some type) size).run bytes := by
  simp [readRecord, otherHeader]

end Reader

variable (s : CString)

def CString.sent : List UInt8 := (s.bytes ++ [0]).take s.len.toNat

theorem CString.len_toNat : s.len.toNat = (s.bytes.length + 1) % 2 ^ 16 :=
  UInt16.toNat_ofNat'

theorem CString.length_sent : s.sent.length = s.len.toNat := by
  rw [CString.sent, List.length_take, s.len_toNat, List.length_append, List.length_singleton]
  omega

theorem CString.sent_eq_iff : s.sent = s.bytes ++ [0] ↔ s.bytes.length + 1 < 2 ^ 16 := by
  constructor
  · intro h
    have hlen := s.length_sent
    rw [h, s.len_toNat, List.length_append, List.length_singleton] at hlen
    omega
  · intro h
    rw [CString.sent, s.len_toNat, Nat.mod_eq_of_lt h]
    exact List.take_of_length_le (by simp)

@[simp] theorem run_readString (rest : List UInt8) :
    Reader.readString.run (s.field ++ rest) = some (s.sent, rest) := by
  have h : (take s.len.toNat).run (s.sent ++ rest) = some (s.sent, rest) :=
    run_take s.length_sent
  simp only [Reader.readString, CString.field, StateT.run_bind, List.append_assoc, run_u16]
  exact h

namespace SideCall

def handled : SideCall → Handled
  | .instructionCount icount => .instructionCount icount
  | .cacheOnly icount type eip address => .cacheOnly icount type eip address
  | .output fd data => .output fd data
  | .newThread => .newThread
  | .syscall number data => .syscall number data
  | .join thread => .join thread
  | .sync => .instructionCount 0
  | .fork => .fork
  | .magic a b c => .magic a b c
  | .emulate type req => .emu type (le64 req)
  | .routineChange event eip esp callEip => .routineChange event eip esp callEip
  | .routineAnnounce eip name imgname offset line column filename =>
    .routineAnnounce eip (name.bytes ++ [0]) (imgname.bytes ++ [0]) offset line column
      (filename.bytes ++ [0])
  | .isaChange newIsa => .isaChange newIsa

def handedOver : SideCall → Handled
  | .routineAnnounce eip name imgname offset line column filename =>
    .routineAnnounce eip name.sent imgname.sent offset line column filename.sent
  | c => c.handled

def isaAfter (isa : UInt32) : SideCall → UInt32
  | .isaChange newIsa => newIsa
  | _ => isa

def payload : SideCall → List UInt8
  | .output _ data => data
  | .syscall _ data => data
  | _ => []

/-- A payload is not empty, and its length and that of what precedes it fit in 32 bits. -/
def Framed : SideCall → Prop
  | .output _ data => 0 < data.length ∧ 1 + data.length < 2 ^ 32
  | .syscall _ data => 0 < data.length ∧ 2 + data.length < 2 ^ 32
  | _ => True

/-- The lengths of the strings, with their 0, fit in 16 bits. -/
def StringsFit : SideCall → Prop
  | .routineAnnounce _ name imgname _ _ _ filename =>
    name.bytes.length + 1 < 2 ^ 16 ∧ imgname.bytes.length + 1 < 2 ^ 16 ∧
      filename.bytes.length + 1 < 2 ^ 16
  | _ => True

instance (c : SideCall) : Decidable c.Framed := by
  unfold Framed
  split <;> infer_instance

end SideCall

section

variable {fresh : ℕ → UInt8}

theorem sizeField_sub {n k : ℕ} (h : n + k < 2 ^ 32) :
    (UInt32.ofNat (n + k) - UInt32.ofNat n).toNat = k := by
  rw [UInt32.toNat_sub]
  simp only [UInt32.toNat_ofNat']
  omega

theorem sizeField_lt {n k : ℕ} (h : n + k < 2 ^ 32) (hk : 0 < k) :
    UInt32.ofNat n < UInt32.ofNat (n + k) := by
  rw [UInt32.lt_iff_toNat_lt]
  simp only [UInt32.toNat_ofNat']
  omega

/-- **A record is consumed exactly, and its handler is given what was sent.** -/
theorem readRecord_framed (fresh : ℕ → UInt8) (r : Reader) {c : SideCall} (h : c.Framed)
    (rest : List UInt8) : (r.readRecord fresh).run (c.record ++ rest) =
      some ((.next, { r with isa := c.isaAfter r.isa }.handle c.handedOver), rest) := by
  cases c with
  | output fd data =>
    obtain ⟨hpos, hlen⟩ := h
    have hcheck : (1 : UInt32) < UInt32.ofNat (1 + data.length) := sizeField_lt hlen hpos
    have htake : (take (UInt32.ofNat (1 + data.length) - 1).toNat).run (data ++ rest) =
        some (data, rest) := run_take (sizeField_sub hlen).symm
    simp only [record]
    generalize UInt32.ofNat (1 + data.length) = size at hcheck htake ⊢
    simp [Reader.run_readRecord_other, Reader.readOther, hcheck, htake, isaAfter,
      handedOver, handled]
  | syscall number data =>
    obtain ⟨hpos, hlen⟩ := h
    have hcheck : (2 : UInt32) < UInt32.ofNat (2 + data.length) := sizeField_lt hlen hpos
    have htake : (take (UInt32.ofNat (2 + data.length) - 2).toNat).run (data ++ rest) =
        some (data, rest) := run_take (sizeField_sub hlen).symm
    simp only [record]
    generalize UInt32.ofNat (2 + data.length) = size at hcheck htake ⊢
    simp [Reader.run_readRecord_other, Reader.readOther, hcheck, htake, isaAfter,
      handedOver, handled]
  | emulate type req =>
    have htake : (take 8).run (le64 req ++ rest) = some (le64 req, rest) :=
      run_take (length_leBytes _ _)
    simp [record, Reader.run_readRecord_other, Reader.readOther, htake,
      isaAfter, handedOver, handled]
  | _ =>
    -- fixed fields and strings only
    simp [record, Reader.run_readRecord_other, Reader.readOther,
      isaAfter, handedOver, handled, Reader.handle]

/-- The assertion on the size of an `Output` or a `Syscall` record. -/
theorem readRecord_empty_payload (r : Reader) {c : SideCall} (h : ¬ c.Framed)
    (hshort : c.payload.length < 2 ^ 31) (bytes : List UInt8) :
    (r.readRecord fresh).run (c.record ++ bytes) = none := by
  cases c with
  | output fd data =>
    have hempty : data = [] := by
      simp only [SideCall.Framed, payload] at h hshort
      exact List.eq_nil_of_length_eq_zero (by omega)
    subst hempty
    simp [record, Reader.run_readRecord_other, Reader.readOther]
  | syscall number data =>
    have hempty : data = [] := by
      simp only [SideCall.Framed, payload] at h hshort
      exact List.eq_nil_of_length_eq_zero (by omega)
    subst hempty
    simp [record, Reader.run_readRecord_other, Reader.readOther]
  | _ => exact absurd trivial h

/-! ## The page mappings -/

theorem reads_sendVa2pa (fresh : ℕ → UInt8) (cfg : WriterConfig) (pagemap : UInt64 → UInt64) (w : Writer)
    (va : UInt64) (r : Reader) :
    ∃ vcache, Reader.Reads fresh r (w.sendVa2pa cfg pagemap va).1 { r with vcache } := by
  unfold Writer.sendVa2pa
  simp only
  split
  · split
    · exact ⟨r.vcache, .nil r⟩
    · refine ⟨Function.update r.vcache (va / 4096) (some (pagemap (va / 4096))),
        .cons (fun rest => ?_) (.nil _)⟩
      simp [Reader.run_readRecord_other, Reader.readOther]
  · exact ⟨r.vcache, .nil r⟩

theorem reads_sendVa2pas (fresh : ℕ → UInt8) (cfg : WriterConfig) (pagemap : UInt64 → UInt64)
    (vas : List UInt64) (w : Writer) (r : Reader) :
    ∃ vcache, Reader.Reads fresh r (w.sendVa2pas cfg pagemap vas).1 { r with vcache } := by
  induction vas generalizing w r with
  | nil => exact ⟨r.vcache, .nil r⟩
  | cons va vas ih =>
    obtain ⟨v₁, h₁⟩ := reads_sendVa2pa fresh cfg pagemap w va r
    obtain ⟨v₂, h₂⟩ := ih (w.sendVa2pa cfg pagemap va).2 { r with vcache := v₁ }
    exact ⟨v₂, h₁.append h₂⟩

/-! ## Calls that come through -/

theorem handedOver_eq_iff (c : SideCall) : c.handedOver = c.handled ↔ c.StringsFit := by
  cases c with
  | routineAnnounce eip name imgname offset line column filename =>
    simp [handedOver, handled, SideCall.StringsFit, CString.sent_eq_iff]
  | _ => exact ⟨fun _ => trivial, fun _ => rfl⟩

/-- After the mappings a call sends, its own record is next. -/
theorem exists_vcache_readRecords_side (cfg : WriterConfig) (pagemap : UInt64 → UInt64) (w : Writer)
    (r : Reader) (c : SideCall) (rest : List UInt8) :
    ∃ vcache, (r.readRecords fresh (w.side cfg pagemap c).1.length).run
        ((w.side cfg pagemap c).1.flatten ++ rest) =
      (Reader.readRecords fresh { r with vcache } 1).run (c.record ++ rest) := by
  obtain ⟨vcache, hmaps⟩ := reads_sendVa2pas fresh cfg pagemap c.translated w r
  refine ⟨vcache, ?_⟩
  simp only [Writer.side, List.length_append, List.length_singleton, List.flatten_append,
    List.flatten_singleton, List.append_assoc]
  rw [Reader.readRecords_add, StateT.run_bind, hmaps]
  rfl

/-- **A call comes through exactly when its payload is not empty and its strings fit**: the reader
consumes its records completely and exactly, and the handler is given the values of the call. -/
theorem side_call_read_back_iff (cfg : WriterConfig) (pagemap : UInt64 → UInt64) (w : Writer)
    (r : Reader) (c : SideCall) (hshort : c.payload.length < 2 ^ 31) (rest : List UInt8) :
    (∃ r', (r.readRecords fresh (w.side cfg pagemap c).1.length).run
          ((w.side cfg pagemap c).1.flatten ++ rest) = some (r', rest) ∧
        r'.handled = c.handled :: r.handled ∧ r'.isa = c.isaAfter r.isa) ↔
      c.Framed ∧ c.StringsFit := by
  obtain ⟨vcache, hrun⟩ := exists_vcache_readRecords_side cfg pagemap w r c rest
  rw [hrun]
  by_cases hframed : c.Framed
  · simp only [Reader.readRecords, StateT.run_bind, readRecord_framed _ _ hframed]
    rw [← handedOver_eq_iff]
    simp [hframed, Reader.handle]
  · simp [Reader.readRecords, readRecord_empty_payload _ hframed hshort, hframed]

def plainConfig : WriterConfig where
  requiresIcachePerInsn := true
  sendVa2paMapping := false
  code := fun _ => 0

/-- A line of output comes through. -/
theorem output_read_back :
    let c : SideCall := .output 1 [104, 105]
    c.payload.length < 2 ^ 31 ∧
      ∃ r', (Reader.readRecords (fun _ => 0) {} 1).run
          ((Writer.side plainConfig id {} c).1.flatten ++ [7]) = some (r', [7]) ∧
        r'.handled = [.output 1 [104, 105]] ∧ r'.isa = 0 := by
  intro c
  exact ⟨by decide, (side_call_read_back_iff plainConfig id {} {} c (by decide) [7]).mpr ⟨by decide, trivial⟩⟩

def longName : CString where
  bytes := List.replicate 65535 97
  noNul := fun h => absurd (List.eq_of_mem_replicate h) (by decide)

theorem longName_sent : longName.sent = [] := by
  have hlen : longName.bytes.length = 65535 := List.length_replicate
  refine List.eq_nil_of_length_eq_zero ?_
  rw [longName.length_sent, longName.len_toNat, hlen]
  decide

/-- **Empty payloads stop the reader, and the length of a long string wraps**: `Output` and
`Syscall` records without data fail an assertion, and of a name of 65535 bytes the handler is given
none. -/
theorem empty_payload_stops_reader :
    let read (c : SideCall) := (Reader.readRecords (fun _ => 0) {} 1).run
      (Writer.side plainConfig id {} c).1.flatten
    let empty : CString := ⟨[], List.not_mem_nil⟩
    read (.output 1 []) = none ∧ read (.syscall 39 []) = none ∧
      (read (.routineAnnounce 0 longName empty 0 0 0 empty)).map (fun p => p.1.handled) =
        some [.routineAnnounce 0 [] [0] 0 0 0 [0]] := by
  intro read empty
  refine ⟨rfl, rfl, ?_⟩
  have hframed := readRecord_framed (fun _ => 0) {}
    (c := .routineAnnounce 0 longName empty 0 0 0 empty) trivial []
  have hbytes : (Writer.side plainConfig id {}
      (.routineAnnounce 0 longName empty 0 0 0 empty)).1.flatten =
        (routineAnnounce 0 longName empty 0 0 0 empty).record ++ [] := by
    simp [Writer.side, translated, Writer.sendVa2pas]
  simp only [read, hbytes, Reader.readRecords, StateT.run_bind, hframed, handedOver,
    longName_sent]
  rfl

end

end MultiCoreMemory.Sift
