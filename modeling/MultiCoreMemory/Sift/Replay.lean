import Mathlib.Data.List.Forall2
import MultiCoreMemory.Sift.CodePages
import MultiCoreMemory.Sift.SideRecords

/-!
# Replaying a trace

The writer predicts the address of an instruction and sends its code once; the reader makes the same
prediction and keeps the code.  They agree as long as their states do.
-/

namespace MultiCoreMemory.Sift

open ByteReader Option Reader Writer Function StateT

/-! ## Writer and reader in step -/

/-- The writer and the reader agree.  An instruction has the same size whenever it is executed. -/
structure Synced (cfg : WriterConfig) (sizeAt : UInt64 → UInt8) (w : Writer) (r : Reader) :
    Prop where
  last : r.lastAddress = w.lastAddress
  pieces : cfg.requiresIcachePerInsn = true → ∀ a, w.icache a = true →
    ∀ k < (sizeAt a).toNat, Knows cfg.code r.icache (a + UInt64.ofNat k)
  pages : cfg.requiresIcachePerInsn = false → ∀ x, w.icache (pageOf x) = true →
    Knows cfg.code r.icache x
  static : ∀ a s, r.scache a = some s →
    s = { addr := a, size := sizeAt a, data := codeBytes cfg.code a (sizeAt a).toNat }
  next : ∀ a b, r.next a = some b → (r.scache b).isSome

/-- An instruction of the code memory, none of whose bytes is in the last page. -/
structure Inst.Fits (sizeAt : UInt64 → UInt8) (i : Inst) : Prop where
  size_eq : i.size = sizeAt i.addr
  pos : 0 < i.size.toNat
  small : i.size.toNat < 16
  few : i.addresses.length ≤ MAX_DYNAMIC_ADDRESSES
  inside : i.addr.toNat + i.size.toNat ≤ 2 ^ 64 - 4096

def Inst.static (code : UInt64 → UInt8) (i : Inst) : StaticInstruction where
  addr := i.addr
  size := i.size
  data := codeBytes code i.addr i.size.toNat

structure SameInstruction (code : UInt64 → UInt8) (i : Inst) (inst : Instruction) : Prop where
  sinst : inst.sinst = i.static code
  numAddresses : inst.numAddresses.toNat = i.addresses.length
  addresses : inst.addresses = i.addresses
  isBranch : inst.isBranch = i.isBranch
  taken : inst.taken = i.taken
  isPredicate : inst.isPredicate = i.isPredicate
  executed : i.isPredicate = true → inst.executed = i.executed

section

variable {cfg : WriterConfig} {sizeAt : UInt64 → UInt8} {w : Writer} {r : Reader} {i : Inst}

theorem Synced.learn (hsync : Synced cfg sizeAt w r) {icache : UInt64 → Option (ℕ → UInt8)}
    {w' : Writer} (hlast : w'.lastAddress = w.lastAddress)
    (hpieces : cfg.requiresIcachePerInsn = true → ∀ a, w'.icache a = true →
      ∀ k < (sizeAt a).toNat, Knows cfg.code icache (a + UInt64.ofNat k))
    (hpages : cfg.requiresIcachePerInsn = false → ∀ x, w'.icache (pageOf x) = true →
      Knows cfg.code icache x) :
    Synced cfg sizeAt w' { r with icache } where
  last := hsync.last.trans hlast.symm
  pieces := hpieces
  pages := hpages
  static := hsync.static
  next := hsync.next

variable (fresh : ℕ → UInt8)

theorem sendInstructionCode_reads (hper : cfg.requiresIcachePerInsn = true)
    (hsync : Synced cfg sizeAt w r) (hfits : i.Fits sizeAt) :
    ∃ icache, Reader.Reads fresh r (w.sendInstructionCode cfg i.addr i.size).1 { r with icache } ∧
      Synced cfg sizeAt (w.sendInstructionCode cfg i.addr i.size).2 { r with icache } ∧
      ∀ k < i.size.toNat, Knows cfg.code icache (i.addr + UInt64.ofNat k) := by
  unfold sendInstructionCode
  split
  · rename_i hsent
    refine ⟨r.icache, .nil r, hsync, ?_⟩
    rw [hfits.size_eq]
    exact hsync.pieces hper i.addr hsent
  · have hsize : (UInt32.ofNat (8 + i.size.toNat)).toNat - 8 = i.size.toNat := by
      rw [UInt32.toNat_ofNat']
      have := hfits.small
      omega
    obtain ⟨icache, hrun, hknows⟩ :=
      readCode_knows cfg.code fresh i.size.toNat r i.addr i.size.toNat le_rfl
    have hknown : ∀ k < i.size.toNat, Knows cfg.code icache (i.addr + UInt64.ofNat k) :=
      fun k hk => hknows _ (.inl ⟨k, hk, rfl⟩)
    refine ⟨icache, .cons (fun rest => ?_) (.nil _), hsync.learn rfl (fun _ a ha k hk => ?_) ?_,
      hknown⟩
    · generalize UInt32.ofNat (8 + i.size.toNat) = size at hsize ⊢
      simp [run_readRecord_other, readOther, hsize, hrun]
    · by_cases haddr : a = i.addr
      · subst haddr
        exact hknown k (by rwa [hfits.size_eq])
      · have hold : w.icache a = true := by simpa [haddr] using ha
        exact hknows _ (.inr (hsync.pieces hper a hold k hk))
    · simp [hper]

theorem readRecord_page (r : Reader) (code : UInt64 → UInt8) (base : UInt64) (rest : List UInt8) :
    (r.readRecord fresh).run (otherHeader .Icache (UInt32.ofNat (8 + ICACHE_SIZE)) ++ le64 base ++
        codeBytes code base ICACHE_SIZE ++ rest) =
      some ((.next, { r with icache := update r.icache base (some (codePage code base)) }),
        rest) := by
  have hsize : (UInt32.ofNat (8 + ICACHE_SIZE)).toNat = 8 + ICACHE_SIZE := by decide
  have htake : (take ICACHE_SIZE).run (codeBytes code base ICACHE_SIZE ++ rest) =
      some (codeBytes code base ICACHE_SIZE, rest) := run_take (length_codeBytes ..)
  generalize UInt32.ofNat (8 + ICACHE_SIZE) = size at hsize ⊢
  simp [run_readRecord_other, readOther, hsize, htake]
  rfl

theorem sendPages_reads (last : UInt64) (hlast : last.toNat + 8192 ≤ 2 ^ 64) (rounds : ℕ)
    (w : Writer) (r : Reader) (base : UInt64)
    (hknown : ∀ x, w.icache (pageOf x) = true → Knows cfg.code r.icache x)
    (hbase : pageOf base = base) (hle : base.toNat ≤ last.toNat + 4096)
    (hrounds : last.toNat + 8192 ≤ base.toNat + 4096 * rounds) :
    ∃ records icache icache', w.sendPages cfg last rounds base =
        some (records, { w with icache := icache' }) ∧
      Reader.Reads fresh r records { r with icache } ∧
      (∀ x, icache' (pageOf x) = true → Knows cfg.code icache x) ∧
      (∀ x, w.icache (pageOf x) = true ∨ base.toNat ≤ (pageOf x).toNat ∧
        (pageOf x).toNat ≤ last.toNat → icache' (pageOf x) = true) := by
  induction rounds generalizing w r base with
  | zero => omega
  | succ rounds ih =>
    simp only [sendPages, UInt64.le_iff_toNat_le]
    by_cases hmore : base.toNat ≤ last.toNat
    · have hnext : (base + 4096).toNat = base.toNat + 4096 := by
        rw [UInt64.toNat_add]
        simp only [UInt64.reduceToNat]
        omega
      have hnext_page : pageOf (base + 4096) = base + 4096 := by
        conv_lhs => rw [← hbase]
        rw [pageOf_next, hbase]
      -- a page from `base` on is `base`, or starts at the next one or later
      have hpages : ∀ x, base.toNat ≤ (pageOf x).toNat →
          pageOf x = base ∨ (base + 4096).toNat ≤ (pageOf x).toNat := by
        intro x hx
        rw [← UInt64.toNat_inj, hnext]
        have h₁ := pageOf_toNat x
        have h₂ := congrArg UInt64.toNat hbase
        rw [pageOf_toNat] at h₂
        omega
      rw [if_pos hmore]
      by_cases hsent : w.icache base = true
      · rw [if_pos hsent]
        obtain ⟨records, icache, icache', hsend, hreads, hknows, hsent'⟩ :=
          ih w r (base + 4096) hknown hnext_page (by omega) (by omega)
        refine ⟨records, icache, icache', hsend, hreads, hknows, fun x hx => hsent' x ?_⟩
        rcases hx with hx | ⟨hx, hx'⟩
        · exact .inl hx
        · rcases hpages x hx with heq | hge
          · exact .inl (heq ▸ hsent)
          · exact .inr ⟨hge, hx'⟩
      · rw [if_neg hsent]
        have hlearned : ∀ x, update w.icache base true (pageOf x) = true →
            Knows cfg.code (update r.icache base (some (codePage cfg.code base))) x := by
          intro x hx
          by_cases hpage : pageOf x = base
          · exact knows_of_page (.inl hpage)
          · rw [update_of_ne hpage] at hx
            exact knows_of_page (.inr (hknown x hx))
        obtain ⟨records, icache, icache', hsend, hreads, hknows, hsent'⟩ :=
          ih { w with icache := update w.icache base true }
            { r with icache := update r.icache base (some (codePage cfg.code base)) }
            (base + 4096) hlearned hnext_page (by omega) (by omega)
        refine ⟨_ :: records, icache, icache', by rw [hsend]; rfl, .cons (fun rest => ?_) hreads,
          hknows, fun x hx => hsent' x ?_⟩
        · exact readRecord_page fresh r cfg.code base rest
        · rcases hx with hx | ⟨hx, hx'⟩
          · refine .inl ?_
            by_cases hpage : pageOf x = base
            · exact hpage ▸ update_self ..
            · exact (update_of_ne hpage ..).trans hx
          · rcases hpages x hx with heq | hge
            · exact .inl (heq ▸ update_self ..)
            · exact .inr ⟨hge, hx'⟩
    · rw [if_neg hmore]
      refine ⟨[], r.icache, w.icache, rfl, .nil r, hknown, fun x hx => hx.resolve_right ?_⟩
      omega

/-- **The code of an instruction is sent, and then the reader knows its bytes.** -/
theorem sendCode_reads (hsync : Synced cfg sizeAt w r) (hfits : i.Fits sizeAt) :
    ∃ records w' icache, w.sendCode cfg i.addr i.size = some (records, w') ∧
      Reader.Reads fresh r records { r with icache } ∧ Synced cfg sizeAt w' { r with icache } ∧
      ∀ k < i.size.toNat, Knows cfg.code icache (i.addr + UInt64.ofNat k) := by
  unfold sendCode
  by_cases hper : cfg.requiresIcachePerInsn = true
  · obtain ⟨icache, hreads, hsync', hknows⟩ := sendInstructionCode_reads fresh hper hsync hfits
    exact ⟨_, _, icache, if_pos hper, hreads, hsync', hknows⟩
  · have hper' : cfg.requiresIcachePerInsn = false := by simpa using hper
    have hinside := hfits.inside
    have hpos := hfits.pos
    have hsmall := hfits.small
    have hend : (i.addr + i.size.toUInt64 - 1).toNat = i.addr.toNat + i.size.toNat - 1 := by
      rw [UInt64.toNat_sub, UInt64.toNat_add, UInt8.toNat_toUInt64]
      simp only [UInt64.reduceToNat]
      omega
    have hfirst := pageOf_toNat i.addr
    have hlast := pageOf_toNat (i.addr + i.size.toUInt64 - 1)
    rw [hend] at hlast
    obtain ⟨records, icache, icache', hsend, hreads, hknows, hsent⟩ :=
      sendPages_reads fresh (pageOf (i.addr + i.size.toUInt64 - 1)) (by omega) 3 w r
        (pageOf i.addr) (hsync.pages hper') (pageOf_pageOf _) (by omega) (by omega)
    refine ⟨records, _, icache, (if_neg hper).trans hsend, hreads,
      hsync.learn rfl (fun h => absurd h hper) fun _ => hknows, fun k hk => hknows _ (hsent _ ?_)⟩
    have hk' : (i.addr + UInt64.ofNat k).toNat = i.addr.toNat + k := by
      rw [UInt64.toNat_add, UInt64.toNat_ofNat']
      omega
    have hpage := pageOf_toNat (i.addr + UInt64.ofNat k)
    rw [hk'] at hpage
    exact .inr ⟨by omega, by omega⟩

/-! ## Static instructions -/

theorem Synced.static_eq (hsync : Synced cfg sizeAt w r) (hfits : i.Fits sizeAt)
    {s : StaticInstruction} (hs : r.scache i.addr = some s) : s = i.static cfg.code := by
  rw [hsync.static i.addr s hs, Inst.static, hfits.size_eq]

theorem findStaticInstruction_synced (hsync : Synced cfg sizeAt w r) (hfits : i.Fits sizeAt)
    (hknows : ∀ k < i.size.toNat, Knows cfg.code r.icache (i.addr + UInt64.ofNat k)) :
    ∃ r', r.findStaticInstruction i.addr i.size = some (i.static cfg.code, r') ∧
      Synced cfg sizeAt w r' ∧ (r'.scache i.addr).isSome := by
  unfold findStaticInstruction
  split
  · -- the one that followed the last time
    rename_i hlast
    obtain ⟨last, -, hnext⟩ := bind_eq_some_iff.mp hlast
    have hsome := hsync.next last i.addr hnext
    obtain ⟨s, hs⟩ := isSome_iff_exists.mp hsome
    refine ⟨r, ?_, hsync, hsome⟩
    rw [hs, map_some, hsync.static_eq hfits hs]
  · split
    · rename_i s hs
      have heq := hsync.static_eq hfits hs
      refine ⟨r, ?_, hsync, by rw [hs]; rfl⟩
      rw [heq]
      exact if_pos rfl
    · have hcopy := copyCode_of_knows r i.size.toNat i.addr i.size.toNat le_rfl hknows
      refine ⟨{ r with scache := update r.scache i.addr (some (i.static cfg.code)) },
        ?_, ⟨hsync.last, hsync.pieces, hsync.pages, fun a s hs => ?_, fun a b hb => ?_⟩, ?_⟩
      · simp only [staticInfoInstruction, hcopy, bind_eq_bind, bind_some,
          Option.pure_def]
        rfl
      · by_cases ha : a = i.addr
        · subst ha
          have hs : some (i.static cfg.code) = some s := by simpa using hs
          rw [← some.inj hs, Inst.static, hfits.size_eq]
        · exact hsync.static a s (by simpa [ha] using hs)
      · by_cases hb' : b = i.addr
        · simp [hb']
        · simpa [hb'] using hsync.next a b hb
      · simp

theorem linkNext_eq_some {addr a b : UInt64} (h : r.linkNext addr a = some b) :
    r.next a = some b ∨ addr = b := by
  cases hlast : r.lastSinst with
  | none =>
    simp only [linkNext, hlast] at h
    exact .inl h
  | some last =>
    simp only [linkNext, hlast] at h
    split at h
    · by_cases ha : a = last
      · subst ha
        rw [update_self] at h
        exact .inr (some.inj h)
      · rw [update_of_ne ha] at h
        exact .inl h
    · exact .inl h

/-- **An instruction whose code is known gets its static instruction.** -/
theorem getStaticInstruction_synced (hsync : Synced cfg sizeAt w r) (hfits : i.Fits sizeAt)
    (hknows : ∀ k < i.size.toNat, Knows cfg.code r.icache (i.addr + UInt64.ofNat k)) :
    ∃ r', r.getStaticInstruction i.addr i.size = some (i.static cfg.code, r') ∧
      Synced cfg sizeAt w r' := by
  obtain ⟨r₁, hfind, hsync₁, hsome⟩ := findStaticInstruction_synced hsync hfits hknows
  simp only [getStaticInstruction, hfind, bind_eq_bind, bind_some]
  refine ⟨_, rfl, hsync₁.last, hsync₁.pieces, hsync₁.pages, hsync₁.static, fun a b hb => ?_⟩
  rcases linkNext_eq_some hb with hold | rfl
  · exact hsync₁.next a b hold
  · exact hsome

/-! ## The record of an instruction -/

theorem numAddresses_toNat (hfits : i.Fits sizeAt) :
    i.numAddresses.toNat = i.addresses.length := by
  have hfew : i.addresses.length ≤ 2 := hfits.few
  rw [Inst.numAddresses, UInt8.toNat_ofNat']
  omega

def Inst.asRead (code : UInt64 → UInt8) (i : Inst) (isa : UInt32) (isPredicate executed : Bool) :
    Instruction where
  sinst := i.static code
  numAddresses := i.numAddresses
  addresses := i.addresses
  isBranch := i.isBranch
  taken := i.taken
  isPredicate
  executed
  isa

theorem finishInstruction_synced (hsync : Synced cfg sizeAt w r) (hfits : i.Fits sizeAt)
    (hknows : ∀ k < i.size.toNat, Knows cfg.code r.icache (i.addr + UInt64.ofNat k))
    (isPredicate executed : Bool) :
    ∃ isa r', (∀ rest, (r.finishInstruction i.addr i.size i.numAddresses i.isBranch i.taken
          isPredicate executed).run (i.addresses.flatMap le64 ++ rest) =
        some ((.instruction (i.asRead cfg.code isa isPredicate executed), r'), rest)) ∧
      Synced cfg sizeAt { w with lastAddress := i.addr + i.size.toUInt64 } r' := by
  have hsync₀ : Synced cfg sizeAt { w with lastAddress := i.addr + i.size.toUInt64 }
      { r with lastAddress := i.addr + i.size.toUInt64 } :=
    ⟨rfl, hsync.pieces, hsync.pages, hsync.static, hsync.next⟩
  obtain ⟨r', hget, hsync'⟩ := getStaticInstruction_synced hsync₀ hfits hknows
  refine ⟨r'.isa, r', fun rest => ?_, hsync'⟩
  have haddresses := run_u64s i.addresses rest
  rw [← numAddresses_toNat hfits] at haddresses
  simp [finishInstruction, haddresses, hget, Inst.asRead]

/-- **The record of an instruction whose code is known is read as it was written.** -/
theorem readRecord_instruction (hsync : Synced cfg sizeAt w r) (hfits : i.Fits sizeAt)
    (hknows : ∀ k < i.size.toNat, Knows cfg.code r.icache (i.addr + UInt64.ofNat k)) :
    ∃ inst r', (∀ rest, (r.readRecord fresh).run ((w.sendInstruction i).1 ++ rest) =
        some ((.instruction inst, r'), rest)) ∧
      SameInstruction cfg.code i inst ∧ Synced cfg sizeAt (w.sendInstruction i).2 r' := by
  have hnum := numAddresses_toNat hfits
  have hfew : i.numAddresses.toNat ≤ 2 := hnum ▸ hfits.few
  have hsize : i.size ≠ 0 := by
    intro h
    have := hfits.pos
    rw [h] at this
    exact absurd this (by decide)
  unfold sendInstruction
  split
  · -- the short form: the reader predicts the address
    rename_i hshort
    obtain ⟨hlow, hn, hb, ht⟩ := simple_fields hfits.small hfew i.isBranch i.taken
    obtain ⟨isa, r', hrun, hsync'⟩ :=
      finishInstruction_synced hsync hfits hknows false true
    have hlast : r.lastAddress = i.addr := hsync.last.trans hshort.1.symm
    have hpred : i.isPredicate = false := by simpa using hshort.2
    refine ⟨i.asRead cfg.code isa false true, r', fun rest => ?_,
      ⟨rfl, hnum, rfl, rfl, rfl, hpred.symm, ?_⟩, ?_⟩
    · generalize packSimple i.size i.numAddresses i.isBranch i.taken = byte at hlow hn hb ht ⊢
      have hbyte : byte ≠ 0 := by
        rintro rfl
        exact hsize (hlow.symm.trans (by decide))
      simp only [readRecord, List.cons_append, run_bind, run_peek,
        bind_eq_bind, bind_some, if_neg hbyte, readInstruction, hlow,
        if_pos hsize, run_u8, hn, hb, ht, hlast]
      exact hrun rest
    · intro h
      rw [hpred] at h
      cases h
    · rw [← hshort.1]
      exact hsync'
  · obtain ⟨hlow, hhigh⟩ := extSize_fields hfits.small
    obtain ⟨hn, hb, ht, hp, he⟩ :=
      extFlags_fields hfew i.isBranch i.taken i.isPredicate i.executed
    obtain ⟨isa, r', hrun, hsync'⟩ := finishInstruction_synced hsync hfits hknows
      i.isPredicate i.executed
    refine ⟨i.asRead cfg.code isa i.isPredicate i.executed, r', fun rest => ?_,
      ⟨rfl, hnum, rfl, rfl, rfl, rfl, fun _ => rfl⟩, hsync'⟩
    generalize packExtSize i.size = byte at hlow hhigh ⊢
    generalize packExtFlags i.numAddresses i.isBranch i.taken i.isPredicate i.executed = flags
      at hn hb ht hp he ⊢
    have hbyte : byte ≠ 0 := by
      rintro rfl
      exact hsize (hhigh.symm.trans (by decide))
    simp only [readRecord, List.cons_append, List.append_assoc, run_bind, run_peek,
      bind_eq_bind, bind_some, if_neg hbyte, readInstruction, hlow, run_u8,
      run_u64, ne_eq, not_true_eq_false, if_false, hhigh, hn, hb, ht, hp, he]
    exact hrun rest

end

/-! ## Whole traces -/

section

variable {fresh : ℕ → UInt8} {r r₁ r' : Reader} {bytes rest : List UInt8}

/-- Calls of `Read` return these instructions, and then the end. -/
inductive Replays (fresh : ℕ → UInt8) : Reader → List UInt8 → List Instruction → Prop
  | ended {r r' : Reader} {bytes rest : List UInt8} (rounds : ℕ)
      (h : (r.read fresh rounds).run bytes = some ((none, r'), rest)) : Replays fresh r bytes []
  | cons {r r' : Reader} {bytes rest : List UInt8} {inst : Instruction} {insts : List Instruction}
      (rounds : ℕ) (h : (r.read fresh rounds).run bytes = some ((some inst, r'), rest))
      (others : Replays fresh r' rest insts) : Replays fresh r bytes (inst :: insts)

theorem read_of_readRecords {n : ℕ} (h : (r.readRecords fresh n).run bytes = some (r₁, rest))
    (rounds : ℕ) :
    (r.read fresh (n + rounds)).run bytes = (r₁.read fresh rounds).run rest := by
  induction n generalizing r bytes with
  | zero =>
    cases h
    rw [Nat.zero_add]
  | succ n ih =>
    simp only [readRecords, run_bind, bind_eq_bind, bind_eq_some_iff,
      Prod.exists] at h
    obtain ⟨outcome, r₂, rest₂, hrecord, _, rest₃, hcheck, hothers⟩ := h
    by_cases hnext : outcome = .next
    · rw [run_check_of_true hnext] at hcheck
      cases hcheck
      subst hnext
      rw [Nat.succ_add, Reader.read, run_bind, hrecord]
      exact ih hothers
    · rw [run_check_of_false hnext] at hcheck
      cases hcheck

variable {records : List (List UInt8)} {insts : List Instruction}

theorem read_of_reads (h : Reader.Reads fresh r records r₁) (rounds : ℕ) (bytes : List UInt8) :
    (r.read fresh (records.length + rounds)).run (records.flatten ++ bytes) =
      (r₁.read fresh rounds).run bytes :=
  read_of_readRecords (h bytes) rounds

theorem Replays.skip (h : Reader.Reads fresh r records r₁) (hreplays : Replays fresh r₁ bytes insts) :
    Replays fresh r (records.flatten ++ bytes) insts := by
  cases hreplays with
  | ended rounds hread => exact .ended (records.length + rounds) ((read_of_reads h _ _).trans hread)
  | cons rounds hread others =>
    exact .cons (records.length + rounds) ((read_of_reads h _ _).trans hread) others

theorem read_mono {n m : ℕ} (hle : n ≤ m) {p : Option Instruction × Reader}
    (h : (r.read fresh n).run bytes = some (p, rest)) :
    (r.read fresh m).run bytes = some (p, rest) := by
  induction n generalizing m r bytes with
  | zero => cases h
  | succ n ih =>
    obtain ⟨m, rfl⟩ : ∃ k, m = k + 1 := ⟨m - 1, by omega⟩
    rw [Reader.read, run_bind] at h ⊢
    cases hrecord : (r.readRecord fresh).run bytes with
    | none =>
      rw [hrecord] at h
      cases h
    | some q =>
      obtain ⟨⟨outcome, r₂⟩, rest₂⟩ := q
      rw [hrecord] at h
      cases outcome with
      | next => exact ih (by omega) h
      | instruction inst => exact h
      | ended => exact h

theorem Replays.replay_eq (h : Replays fresh r bytes insts) :
    ∃ n, ∀ rounds, n ≤ rounds →
      ∃ rest, (r.replay fresh rounds (insts.length + 1)).run bytes = some (insts, rest) := by
  induction h with
  | @ended r r' bytes rest rounds hread =>
    refine ⟨rounds, fun m hm => ⟨rest, ?_⟩⟩
    rw [replay, run_bind, read_mono hm hread]
    rfl
  | cons rounds hread others ih =>
    obtain ⟨n, hn⟩ := ih
    refine ⟨max rounds n, fun m hm => ?_⟩
    obtain ⟨rest, hrest⟩ := hn m (by omega)
    refine ⟨rest, ?_⟩
    rw [List.length_cons, replay, run_bind, read_mono (by omega : rounds ≤ m) hread]
    simp [hrest]

/-- The records of several calls, each with what `va2pa_lookup` finds at its time. -/
def Writer.calls (cfg : WriterConfig) (w : Writer) :
    List ((UInt64 → UInt64) × WriterCall) → Option (List (List UInt8) × Writer)
  | [] => some ([], w)
  | (pagemap, c) :: cs => do
    let (first, w) ← w.call cfg pagemap c
    let (others, w) ← w.calls cfg cs
    return (first ++ others, w)

def instructions (calls : List ((UInt64 → UInt64) × WriterCall)) : List Inst :=
  calls.filterMap fun c => match c.2 with
    | .instruction i => some i
    | .side _ => none

/-- A call of the trace: an instruction of the code memory, or a record whose payload is not
empty. -/
def WriterCall.Fits (sizeAt : UInt64 → UInt8) : WriterCall → Prop
  | .instruction i => i.Fits sizeAt
  | .side c => c.Framed

variable {cfg : WriterConfig} {sizeAt : UInt64 → UInt8} {w : Writer}

theorem exists_sendVa2pas (cfg : WriterConfig) (pagemap : UInt64 → UInt64) (w : Writer)
    (vas : List UInt64) : ∃ va2pa, (w.sendVa2pas cfg pagemap vas).2 = { w with va2pa } := by
  induction vas generalizing w with
  | nil => exact ⟨w.va2pa, rfl⟩
  | cons va vas ih =>
    obtain ⟨v₁, h₁⟩ : ∃ va2pa, (w.sendVa2pa cfg pagemap va).2 = { w with va2pa } := by
      unfold sendVa2pa
      simp only
      split
      · split
        · exact ⟨w.va2pa, rfl⟩
        · exact ⟨_, rfl⟩
      · exact ⟨w.va2pa, rfl⟩
    obtain ⟨v₂, h₂⟩ := ih { w with va2pa := v₁ }
    refine ⟨v₂, ?_⟩
    change (sendVa2pas cfg pagemap (w.sendVa2pa cfg pagemap va).2 vas).2 = _
    rw [h₁]
    exact h₂

variable (fresh : ℕ → UInt8) (pagemap : UInt64 → UInt64)

theorem sendVa2pas_reads (vas : List UInt64) (hsync : Synced cfg sizeAt w r) :
    ∃ vcache, Reader.Reads fresh r (w.sendVa2pas cfg pagemap vas).1 { r with vcache } ∧
      Synced cfg sizeAt (w.sendVa2pas cfg pagemap vas).2 { r with vcache } := by
  obtain ⟨vcache, hreads⟩ := reads_sendVa2pas fresh cfg pagemap vas w r
  obtain ⟨va2pa, hw⟩ := exists_sendVa2pas cfg pagemap w vas
  refine ⟨vcache, hreads, ?_⟩
  rw [hw]
  exact ⟨hsync.last, hsync.pieces, hsync.pages, hsync.static, hsync.next⟩

/-- **An instruction**: its records are read, the last of them as the instruction. -/
theorem instruction_reads (hsync : Synced cfg sizeAt w r) {i : Inst} (hfits : i.Fits sizeAt) :
    ∃ records record w' inst r₁ r', w.instruction cfg pagemap i =
        some (records ++ [record], w') ∧ Reader.Reads fresh r records r₁ ∧
      (∀ rest, (r₁.readRecord fresh).run (record ++ rest) = some ((.instruction inst, r'), rest)) ∧
      SameInstruction cfg.code i inst ∧ Synced cfg sizeAt w' r' := by
  have hsmall : i.size < 16 := UInt8.lt_iff_toNat_lt.mpr hfits.small
  obtain ⟨pages, w₁, icache, hcode, hreads₁, hsync₁, hknows⟩ := sendCode_reads fresh hsync hfits
  obtain ⟨vcache, hreads₂, hsync₂⟩ :=
    sendVa2pas_reads fresh pagemap (i.addr :: i.addresses) hsync₁
  obtain ⟨inst, r', hrecord, hsame, hsync₃⟩ := readRecord_instruction fresh hsync₂ hfits hknows
  refine ⟨_, _, _, inst, _, r', ?_, hreads₁.append hreads₂, hrecord, hsame, hsync₃⟩
  rw [instruction, if_pos ⟨hsmall, hfits.few⟩, hcode]
  rfl

theorem side_reads (hsync : Synced cfg sizeAt w r) {c : SideCall} (hframed : c.Framed) :
    ∃ r', Reader.Reads fresh r (w.side cfg pagemap c).1 r' ∧
      Synced cfg sizeAt (w.side cfg pagemap c).2 r' := by
  obtain ⟨vcache, hreads, hsync'⟩ := sendVa2pas_reads fresh pagemap c.translated hsync
  refine ⟨_, hreads.append (.cons (readRecord_framed fresh _ hframed) (.nil _)), ?_⟩
  exact ⟨hsync'.last, hsync'.pieces, hsync'.pages, hsync'.static, hsync'.next⟩

theorem replays_calls (calls : List ((UInt64 → UInt64) × WriterCall))
    (hfits : ∀ c ∈ calls, c.2.Fits sizeAt) (hsync : Synced cfg sizeAt w r) :
    ∃ records w' insts, w.calls cfg calls = some (records, w') ∧
      List.Forall₂ (SameInstruction cfg.code) (instructions calls) insts ∧
      Replays fresh r (records.flatten ++ Writer.endRecord) insts := by
  induction calls generalizing w r with
  | nil => exact ⟨[], w, [], rfl, .nil, .ended 1 rfl⟩
  | cons call calls ih =>
    obtain ⟨pagemap, c⟩ := call
    have hothers : ∀ c ∈ calls, c.2.Fits sizeAt := fun c hc => hfits c (.tail _ hc)
    cases c with
    | instruction i =>
      obtain ⟨records, record, w₁, inst, r₁, r₂, hcall, hreads, hrecord, hsame, hsync'⟩ :=
        instruction_reads fresh pagemap hsync (hfits _ (.head _))
      obtain ⟨others, w₂, insts, hcalls, hinsts, hreplays⟩ := ih hothers hsync'
      refine ⟨records ++ [record] ++ others, w₂, inst :: insts, ?_, .cons hsame hinsts, ?_⟩
      · simp [Writer.calls, Writer.call, hcall, hcalls]
      · have hread : (r₁.read fresh 1).run (record ++ (others.flatten ++ Writer.endRecord)) =
            some ((some inst, r₂), others.flatten ++ Writer.endRecord) := by
          rw [Reader.read, run_bind, hrecord]
          rfl
        have hnow : Replays fresh r₁ (record ++ (others.flatten ++ Writer.endRecord))
            (inst :: insts) := .cons 1 hread hreplays
        simpa using hnow.skip hreads
    | side c =>
      obtain ⟨r₁, hreads, hsync'⟩ := side_reads fresh pagemap hsync (hfits _ (.head _))
      obtain ⟨others, w₂, insts, hcalls, hinsts, hreplays⟩ := ih hothers hsync'
      refine ⟨(w.side cfg pagemap c).1 ++ others, w₂, insts, ?_, hinsts, ?_⟩
      · simp [Writer.calls, Writer.call, hcalls]
      · simpa using hreplays.skip hreads

theorem Synced.start (cfg : WriterConfig) (sizeAt : UInt64 → UInt8) : Synced cfg sizeAt {} {} where
  last := rfl
  pieces := fun _ _ h => by cases h
  pages := fun _ _ h => by cases h
  static := fun _ _ h => by cases h
  next := fun _ _ h => by cases h

/-- **A trace whose payloads are not empty replays its instructions exactly**: the writer ends, and
calls of `Read` return the instructions that were written, in order, and then the end. -/
theorem trace_replays_instructions (cfg : WriterConfig) (sizeAt : UInt64 → UInt8)
    (fresh : ℕ → UInt8) (calls : List ((UInt64 → UInt64) × WriterCall))
    (hfits : ∀ c ∈ calls, c.2.Fits sizeAt) :
    ∃ records w' insts, Writer.calls cfg {} calls = some (records, w') ∧
      List.Forall₂ (SameInstruction cfg.code) (instructions calls) insts ∧
      ∃ n, ∀ rounds, n ≤ rounds → ∃ rest,
        (replay fresh {} rounds (insts.length + 1)).run
          (records.flatten ++ Writer.endRecord) = some (insts, rest) := by
  obtain ⟨records, w', insts, hcalls, hinsts, hreplays⟩ :=
    replays_calls fresh calls hfits (Synced.start cfg sizeAt)
  exact ⟨records, w', insts, hcalls, hinsts, hreplays.replay_eq⟩

def twoByteLoad (addr : UInt64) : Inst where
  addr
  size := 2
  addresses := [0x7000]
  isBranch := false
  taken := false
  isPredicate := false
  executed := true

theorem twoByteLoad_fits {addr : UInt64} (h : addr.toNat + 2 ≤ 2 ^ 64 - 4096) :
    (twoByteLoad addr).Fits fun _ => 2 where
  size_eq := rfl
  pos := by simp [twoByteLoad]
  small := by simp [twoByteLoad]
  few := by simp [twoByteLoad, MAX_DYNAMIC_ADDRESSES]
  inside := h

/-- Two loads in a row with a line of output between them. -/
theorem loads_and_output_replayed :
    let calls : List ((UInt64 → UInt64) × WriterCall) :=
      [(id, .instruction (twoByteLoad 0x400ffe)), (id, .side (.output 1 [104, 105])),
        (id, .instruction (twoByteLoad 0x401000))]
    (∀ c ∈ calls, c.2.Fits fun _ => 2) ∧
      ∃ records w' insts, Writer.calls plainConfig {} calls = some (records, w') ∧
        List.Forall₂ (SameInstruction plainConfig.code) (instructions calls) insts ∧
        ∃ n, ∀ rounds, n ≤ rounds → ∃ rest,
          (replay (fun _ => 0) {} rounds (insts.length + 1)).run
            (records.flatten ++ Writer.endRecord) = some (insts, rest) := by
  intro calls
  have hfits : ∀ c ∈ calls, c.2.Fits fun _ => 2 := by
    have hframed : (SideCall.output 1 [104, 105]).Framed := by decide
    simp only [calls, List.forall_mem_cons, List.not_mem_nil, false_implies, implies_true, and_true]
    exact ⟨twoByteLoad_fits (by decide), hframed, twoByteLoad_fits (by decide)⟩
  exact ⟨hfits, trace_replays_instructions plainConfig (fun _ => 2) (fun _ => 0) calls hfits⟩

/-- **A trace stops at an empty output**: the instruction that was written after it is never
read. -/
theorem trace_stops_at_empty_output :
    let calls : List ((UInt64 → UInt64) × WriterCall) :=
      [(id, .side (.output 1 [])), (id, .instruction (twoByteLoad 0x400000))]
    ∃ records w', Writer.calls plainConfig {} calls = some (records, w') ∧
      instructions calls = [twoByteLoad 0x400000] ∧ (twoByteLoad 0x400000).Fits (fun _ => 2) ∧
      ∀ rounds n, (replay (fun _ => 0) {} rounds n).run
        (records.flatten ++ Writer.endRecord) = none := by
  intro calls
  obtain ⟨others, w', hcalls⟩ : ∃ others w', Writer.calls plainConfig {} calls =
      some ((SideCall.output 1 []).record :: others, w') := ⟨_, _, rfl⟩
  refine ⟨_, w', hcalls, rfl, twoByteLoad_fits (by decide), fun rounds n => ?_⟩
  have hread : ∀ bytes, (Reader.read (fun _ => 0) {} rounds).run
      ((SideCall.output 1 []).record ++ bytes) = none := by
    intro bytes
    cases rounds with
    | zero => rfl
    | succ rounds =>
      rw [Reader.read, run_bind, readRecord_empty_payload _ (by decide) (by decide)]
      rfl
  cases n with
  | zero => rfl
  | succ n =>
    rw [replay, run_bind, List.flatten_cons, List.append_assoc, hread]
    rfl

end

end MultiCoreMemory.Sift
