import MultiCoreMemory.Lib.Machine
import MultiCoreMemory.Sift.CodePages

/-!
# The page loop of the writer (`Writer::Instruction`)

The loop goes from the page of the first byte to the page of the last one in wrapping 64-bit arithmetic,
and sends the pages that were not sent before.
-/

namespace MultiCoreMemory.Sift

open List Option Function

/-! ## The pages of the bytes -/

/-- The last page of the address space. -/
def lastPage : UInt64 := 0xfffffffffffff000

section

variable {base a : UInt64} {n : ℕ}

theorem le_lastPage (h : pageOf base = base) : base ≤ lastPage := by
  rw [UInt64.le_iff_toNat_le]
  have hnat := congrArg UInt64.toNat h
  rw [pageOf_toNat] at hnat
  have hlt := base.toNat_lt
  show base.toNat ≤ 0xfffffffffffff000
  omega

theorem pageOf_add_page (h : pageOf base = base) : pageOf (base + 4096) = base + 4096 := by
  have hnext := pageOf_next base
  rwa [h] at hnext

theorem toNat_next (h : pageOf base = base) (hne : base ≠ lastPage) :
    (base + 4096).toNat = base.toNat + 4096 := by
  have hle := UInt64.le_iff_toNat_le.mp (le_lastPage h)
  have hnat : base.toNat ≠ lastPage.toNat := fun heq => hne (UInt64.toNat_inj.mp heq)
  rw [UInt64.toNat_add]
  have htop : lastPage.toNat = 2 ^ 64 - 4096 := rfl
  simp only [UInt64.reduceToNat]
  omega

theorem pages_cases (hpos : 1 ≤ n) (hn : n ≤ ICACHE_SIZE) :
    (∀ k < n, pageOf (a + UInt64.ofNat k) = pageOf a) ∨
      pageOf (a + UInt64.ofNat (n - 1)) = pageOf a + 4096 ∧
        ∀ k < n, pageOf (a + UInt64.ofNat k) = pageOf a ∨
          pageOf (a + UInt64.ofNat k) = pageOf a + 4096 := by
  have hoff := offsetOf_lt a
  have hfirst : ∀ k, offsetOf a + k < ICACHE_SIZE → pageOf (a + UInt64.ofNat k) = pageOf a :=
    fun k hk => pageOf_add hk
  have hsecond : ∀ k < n, ICACHE_SIZE ≤ offsetOf a + k →
      pageOf (a + UInt64.ofNat k) = pageOf a + 4096 := by
    intro k hk hcross
    have hsplit : k = (ICACHE_SIZE - offsetOf a) + (offsetOf a + k - ICACHE_SIZE) := by omega
    rw [hsplit, ← add_ofNat_add, add_rest_of_page, pageOf_add, pageOf_next]
    rw [offsetOf_next]
    omega
  by_cases hcross : offsetOf a + (n - 1) < ICACHE_SIZE
  · exact .inl fun k hk => hfirst k (by omega)
  · refine .inr ⟨hsecond (n - 1) (by omega) (by omega), fun k hk => ?_⟩
    by_cases hk' : offsetOf a + k < ICACHE_SIZE
    · exact .inl (hfirst k hk')
    · exact .inr (hsecond k hk (by omega))

theorem add_size_sub_one {size : UInt8} (hpos : 1 ≤ size.toNat) :
    a + size.toUInt64 - 1 = a + UInt64.ofNat (size.toNat - 1) := by
  have hsize : size.toUInt64 = UInt64.ofNat (size.toNat - 1) + 1 := by
    apply UInt64.toNat_inj.mp
    have hlt := size.toNat_lt
    rw [UInt64.toNat_add, UInt64.toNat_ofNat', UInt8.toNat_toUInt64]
    simp only [UInt64.reduceToNat]
    omega
  rw [hsize, ← UInt64.add_assoc, UInt64.add_sub_cancel]

end

/-! ## The loop -/

namespace Writer

variable (cfg : WriterConfig) (w : Writer) {base last : UInt64}

/-- The page is marked as sent. -/
def markPage (base : UInt64) : Writer := { w with icache := update w.icache base true }

/-- The record of the page, if it was not sent before. -/
def newPage (base : UInt64) : List (List UInt8) :=
  if w.icache base then [] else [pageRecord cfg base]

theorem sendPages_more (h : base ≤ last) (tests : ℕ) :
    w.sendPages cfg last (tests + 1) base =
      ((w.markPage base).sendPages cfg last tests (base + 4096)).map fun r =>
        (w.newPage cfg base ++ r.1, r.2) := by
  rw [sendPages, if_pos h, newPage]
  by_cases hsent : w.icache base = true
  · have hsame : w.markPage base = w := by
      rw [markPage, ← hsent, update_eq_self]
    rw [if_pos hsent, if_pos hsent, hsame]
    exact Option.map_id'.symm
  · rw [if_neg hsent, if_neg hsent, markPage]
    cases sendPages cfg _ last tests (base + 4096) <;> rfl

theorem sendPages_done (h : ¬ base ≤ last) (tests : ℕ) :
    w.sendPages cfg last (tests + 1) base = some ([], w) := by
  rw [sendPages, if_neg h]

/-- If the last byte is in the last page of the address space, the loop does not end. -/
theorem sendPages_never_ends (h : pageOf base = base) (tests : ℕ) :
    w.sendPages cfg lastPage tests base = none := by
  induction tests generalizing w base with
  | zero => rfl
  | succ tests ih => rw [sendPages_more _ _ (le_lastPage h), ih _ (pageOf_add_page h), map_none]

theorem sendPages_one (h : pageOf base = base) (hne : base ≠ lastPage) (tests : ℕ) :
    w.sendPages cfg base (tests + 2) base = some (w.newPage cfg base, w.markPage base) := by
  have hnot : ¬ base + 4096 ≤ base := by
    rw [UInt64.le_iff_toNat_le, toNat_next h hne]
    omega
  rw [sendPages_more _ _ (UInt64.le_refl base), sendPages_done _ _ hnot, map_some, append_nil]

theorem sendPages_two (h : pageOf base = base) (hne : base ≠ lastPage)
    (hnext : base + 4096 ≠ lastPage) (tests : ℕ) :
    w.sendPages cfg (base + 4096) (tests + 3) base =
      some (w.newPage cfg base ++ (w.markPage base).newPage cfg (base + 4096),
        (w.markPage base).markPage (base + 4096)) := by
  have hle : base ≤ base + 4096 := by
    rw [UInt64.le_iff_toNat_le, toNat_next h hne]
    omega
  rw [sendPages_more _ _ hle, sendPages_one _ _ (pageOf_add_page h) hnext, map_some]

theorem sendPages_wrapped (tests : ℕ) :
    w.sendPages cfg (lastPage + 4096) (tests + 1) lastPage = some ([], w) :=
  sendPages_done _ _ (by decide) _

end Writer

/-! ## The pages in the records -/

/-- The code page that a record carries: its header is that of a page, and it is as long as one. -/
def recordPage (record : List UInt8) : Option UInt64 :=
  if record.take 6 = otherHeader .Icache (UInt32.ofNat (8 + ICACHE_SIZE)) ∧
      record.length = 14 + ICACHE_SIZE then
    some (UInt64.ofNat (ofLE ((record.drop 6).take 8)))
  else none

section

variable {record : List UInt8}

theorem recordPage_pageRecord (cfg : WriterConfig) (base : UInt64) :
    recordPage (Writer.pageRecord cfg base) = some base := by
  have hlen : (otherHeader .Icache (UInt32.ofNat (8 + ICACHE_SIZE))).length = 6 := by decide
  have hread : ofLE (le64 base) = base.toNat := ofLE_leBytes base.toNat_lt
  have hbase : (le64 base).length = 8 := length_leBytes ..
  have hlength : (Writer.pageRecord cfg base).length = 14 + ICACHE_SIZE := by
    rw [Writer.pageRecord, length_append, length_append, hlen, hbase, length_codeBytes]
  rw [recordPage, hlength]
  unfold Writer.pageRecord
  rw [append_assoc, take_left' hlen, drop_left' hlen, take_left' hbase, hread, UInt64.ofNat_toNat,
    if_pos ⟨rfl, rfl⟩]

theorem recordPage_of_length (h : record.length < 14 + ICACHE_SIZE) : recordPage record = none :=
  if_neg fun hpage => absurd hpage.2 h.ne

theorem recordPage_of_type {type : UInt8} (h : record[1]? = some type)
    (hne : type ≠ RecOtherType.Icache.code) : recordPage record = none := by
  refine if_neg fun hpage => hne ?_
  have hsecond : (record.take 6)[1]? = record[1]? := getElem?_take_of_lt (by decide)
  rw [hpage.1, h] at hsecond
  exact (Option.some.inj hsecond).symm

theorem recordPage_side (c : SideCall) : recordPage c.record = none := by
  cases c <;> exact recordPage_of_type rfl (by decide)

end

namespace Writer

variable {cfg : WriterConfig} {pagemap : UInt64 → UInt64} {w w' : Writer}
  {records : List (List UInt8)}

theorem newPage_pages (base : UInt64) :
    (w.newPage cfg base).filterMap recordPage = if w.icache base then [] else [base] := by
  unfold newPage
  split
  · rfl
  · rw [filterMap_cons_some (recordPage_pageRecord cfg base), filterMap_nil]

section

variable (cfg pagemap w)

theorem sendVa2pa_spec (va : UInt64) :
    (w.sendVa2pa cfg pagemap va).1.filterMap recordPage = [] ∧
      (w.sendVa2pa cfg pagemap va).2.icache = w.icache := by
  unfold sendVa2pa
  dsimp only
  split
  · split
    · exact ⟨rfl, rfl⟩
    · exact ⟨filterMap_cons_none (recordPage_of_type rfl (by decide)), rfl⟩
  · exact ⟨rfl, rfl⟩

theorem sendVa2pas_spec (vas : List UInt64) :
    (w.sendVa2pas cfg pagemap vas).1.filterMap recordPage = [] ∧
      (w.sendVa2pas cfg pagemap vas).2.icache = w.icache := by
  induction vas generalizing w with
  | nil => exact ⟨rfl, rfl⟩
  | cons va vas ih =>
    obtain ⟨hfirst, hicache⟩ := sendVa2pa_spec cfg pagemap w va
    obtain ⟨hothers, hicache'⟩ := ih (w.sendVa2pa cfg pagemap va).2
    refine ⟨?_, hicache'.trans hicache⟩
    rw [sendVa2pas, filterMap_append, hfirst, hothers, append_nil]

theorem sendInstruction_spec (i : Inst) (h : i.addresses.length ≤ MAX_DYNAMIC_ADDRESSES) :
    recordPage (w.sendInstruction i).1 = none ∧ (w.sendInstruction i).2.icache = w.icache := by
  have haddresses : (i.addresses.flatMap le64).length ≤ 16 := by
    have heach : ∀ a ∈ i.addresses, (le64 a).length = 8 := fun a _ => length_leBytes ..
    rw [length_flatMap, map_congr_left heach, map_const', sum_replicate_nat]
    unfold MAX_DYNAMIC_ADDRESSES at h
    omega
  have hsize : 26 < 14 + ICACHE_SIZE := by decide
  unfold sendInstruction
  split
  · refine ⟨recordPage_of_length ?_, rfl⟩
    rw [length_cons]
    omega
  · refine ⟨recordPage_of_length ?_, rfl⟩
    have haddr : (le64 i.addr).length = 8 := length_leBytes ..
    rw [length_cons, length_cons, length_append]
    omega

end

/-- The pages of the records of an instruction are those of the page loop. -/
theorem instruction_pages {i : Inst} (h : w.instruction cfg pagemap i = some (records, w')) :
    ∃ code w₁, w.sendCode cfg i.addr i.size = some (code, w₁) ∧
      records.filterMap recordPage = code.filterMap recordPage ∧ w'.icache = w₁.icache := by
  obtain ⟨⟨-, hfits⟩, h⟩ := ite_none_right_eq_some.mp h
  rw [bind_eq_bind, bind_eq_some_iff] at h
  obtain ⟨⟨code, w₁⟩, hcode, hrest⟩ := h
  cases hrest
  obtain ⟨hmappings, hicache⟩ := sendVa2pas_spec cfg pagemap w₁ (i.addr :: i.addresses)
  generalize hw : w₁.sendVa2pas cfg pagemap (i.addr :: i.addresses) = r at hmappings hicache
  obtain ⟨hrecord, hicache'⟩ := sendInstruction_spec r.2 i hfits
  refine ⟨code, w₁, hcode, ?_, ?_⟩
  · show (code ++ (w₁.sendVa2pas cfg pagemap (i.addr :: i.addresses)).1 ++
      [((w₁.sendVa2pas cfg pagemap (i.addr :: i.addresses)).2.sendInstruction i).1]).filterMap
        recordPage = _
    rw [hw, filterMap_append, filterMap_append, hmappings, filterMap_cons_none hrecord, filterMap_nil,
      append_nil, append_nil]
  · show ((w₁.sendVa2pas cfg pagemap (i.addr :: i.addresses)).2.sendInstruction i).2.icache = _
    rw [hw, hicache', hicache]

/-- **A loop that ends writes records of pages not sent before, none twice, and marks them.** -/
theorem sendPages_accounts {last base : UInt64} {tests : ℕ}
    (h : w.sendPages cfg last tests base = some (records, w')) :
    (records.filterMap recordPage).Nodup ∧
      (∀ page ∈ records.filterMap recordPage, w.icache page = false) ∧
      ∀ page, w'.icache page = true ↔
        w.icache page = true ∨ page ∈ records.filterMap recordPage := by
  induction tests generalizing w base records with
  | zero => cases h
  | succ tests ih =>
    by_cases hmore : base ≤ last
    · rw [sendPages_more _ _ hmore, map_eq_some_iff] at h
      obtain ⟨⟨others, w₁⟩, hothers, heq⟩ := h
      cases heq
      obtain ⟨hnodup, hfresh, hmarked⟩ := ih hothers
      -- the later pages are not marked once `base` is, so none of them is `base`
      have hlater : ∀ page ∈ others.filterMap recordPage, page ≠ base ∧ w.icache page = false := by
        intro page hmem
        have hnot := hfresh page hmem
        by_cases heq : page = base
        · subst heq
          simp [markPage] at hnot
        · exact ⟨heq, by simpa [markPage, heq] using hnot⟩
      rw [filterMap_append, newPage_pages]
      refine ⟨?_, fun page hmem => ?_, fun page => ?_⟩
      · split
        · exact hnodup
        · exact nodup_cons.mpr ⟨fun hmem => (hlater base hmem).1 rfl, hnodup⟩
      · rcases mem_append.mp hmem with hmem | hmem
        · split at hmem
          · cases hmem
          · rename_i hnew
            rw [mem_singleton.mp hmem]
            simpa using hnew
        · exact (hlater page hmem).2
      · rw [hmarked]
        by_cases heq : page = base
        · subst heq
          by_cases hsent : w.icache page = true <;> simp [markPage, hsent]
        · by_cases hsent : w.icache base = true <;> simp [markPage, heq, hsent]
    · rw [sendPages_done _ _ hmore] at h
      cases h
      exact ⟨nodup_nil, by simp, by simp⟩

end Writer

/-! ## The pages of an instruction -/

/-- The loop ends after at most two iterations.  It writes the pages of the bytes of the instruction that
were not sent before, and has then sent all of them. -/
def SendsBytePages (cfg : WriterConfig) (w : Writer) (addr : UInt64) (size : UInt8) : Prop :=
  ∃ records w', w.sendCode cfg addr size = some (records, w') ∧
    ∀ page, (page ∈ records.filterMap recordPage ↔
        w.icache page = false ∧ ∃ k < size.toNat, page = pageOf (addr + UInt64.ofNat k)) ∧
      (w'.icache page = true ↔
        w.icache page = true ∨ ∃ k < size.toNat, page = pageOf (addr + UInt64.ofNat k))

section

variable {cfg : WriterConfig} {w : Writer} {addr : UInt64} {size : UInt8}

/-- It is enough that the pages marked afterwards are right: what is newly marked was written. -/
theorem sendsBytePages_of_marked {records : List (List UInt8)} {w' : Writer} {last base : UInt64}
    {tests : ℕ} (hcode : w.sendCode cfg addr size = some (records, w'))
    (h : w.sendPages cfg last tests base = some (records, w'))
    (hmarked : ∀ page, w'.icache page = true ↔
      w.icache page = true ∨ ∃ k < size.toNat, page = pageOf (addr + UInt64.ofNat k)) :
    SendsBytePages cfg w addr size := by
  obtain ⟨-, hfresh, hafter⟩ := Writer.sendPages_accounts h
  refine ⟨records, w', hcode, fun page => ⟨?_, hmarked page⟩⟩
  constructor
  · intro hmem
    have hnot := hfresh page hmem
    rcases (hmarked page).mp ((hafter page).mpr (.inr hmem)) with hold | hbyte
    · rw [hnot] at hold
      cases hold
    · exact ⟨hnot, hbyte⟩
  · rintro ⟨hnot, hbyte⟩
    rcases (hafter page).mp ((hmarked page).mpr (.inr hbyte)) with hold | hmem
    · rw [hnot] at hold
      cases hold
    · exact hmem

/-- **From every state of the writer the loop sends the pages of the bytes, exactly when none of them is
the last page of the address space.** -/
theorem sendsBytePages_iff (hpages : cfg.requiresIcachePerInsn = false) (hpos : 1 ≤ size.toNat)
    (hsize : size.toNat ≤ ICACHE_SIZE) :
    (∀ w, SendsBytePages cfg w addr size) ↔
      ∀ k < size.toNat, pageOf (addr + UInt64.ofNat k) ≠ lastPage := by
  have hpage := pageOf_pageOf addr
  have hzero : pageOf (addr + UInt64.ofNat 0) = pageOf addr := by simp
  have hcode : ∀ w : Writer, w.sendCode cfg addr size =
      w.sendPages cfg (pageOf (addr + UInt64.ofNat (size.toNat - 1))) 3 (pageOf addr) := by
    intro w
    rw [Writer.sendCode, hpages, add_size_sub_one hpos]
    rfl
  rcases pages_cases (a := addr) hpos hsize with hone | ⟨hlast, htwo⟩
  · rw [hone (size.toNat - 1) (by omega)] at hcode
    by_cases htop : pageOf addr = lastPage
    · refine iff_of_false (fun h => ?_) fun h => h 0 (by omega) (hzero.trans htop)
      obtain ⟨records, w', hsend, -⟩ := h {}
      rw [hcode, htop, Writer.sendPages_never_ends _ _ (htop ▸ hpage)] at hsend
      cases hsend
    · refine iff_of_true (fun w => ?_) fun k hk => ?_
      · have hsend := Writer.sendPages_one cfg w hpage htop 1
        refine sendsBytePages_of_marked ((hcode w).trans hsend) hsend fun page => ?_
        have hbytes : (∃ k < size.toNat, page = pageOf (addr + UInt64.ofNat k)) ↔
            page = pageOf addr := by
          constructor
          · rintro ⟨k, hk, rfl⟩
            exact hone k hk
          · rintro rfl
            exact ⟨0, by omega, hzero.symm⟩
        rw [hbytes]
        by_cases heq : page = pageOf addr <;> simp [Writer.markPage, heq]
      · rw [hone k hk]
        exact htop
  · rw [hlast] at hcode
    by_cases htop : pageOf addr = lastPage
    · refine iff_of_false (fun h => ?_) fun h => h 0 (by omega) (hzero.trans htop)
      obtain ⟨records, w', hsend, hsent⟩ := h {}
      rw [hcode, htop, Writer.sendPages_wrapped cfg {} 2] at hsend
      cases hsend
      simpa using (hsent (pageOf addr)).1.mpr ⟨rfl, 0, by omega, hzero.symm⟩
    · by_cases hnext : pageOf addr + 4096 = lastPage
      · refine iff_of_false (fun h => ?_) fun h => h (size.toNat - 1) (by omega) (hlast.trans hnext)
        obtain ⟨records, w', hsend, -⟩ := h {}
        rw [hcode, hnext, Writer.sendPages_never_ends _ _ hpage] at hsend
        cases hsend
      · refine iff_of_true (fun w => ?_) fun k hk => ?_
        · have hsend := Writer.sendPages_two cfg w hpage htop hnext 0
          refine sendsBytePages_of_marked ((hcode w).trans hsend) hsend fun page => ?_
          have hbytes : (∃ k < size.toNat, page = pageOf (addr + UInt64.ofNat k)) ↔
              page = pageOf addr ∨ page = pageOf addr + 4096 := by
            constructor
            · rintro ⟨k, hk, rfl⟩
              exact htwo k hk
            · rintro (rfl | rfl)
              · exact ⟨0, by omega, hzero.symm⟩
              · exact ⟨size.toNat - 1, by omega, hlast.symm⟩
          rw [hbytes]
          by_cases heq : page = pageOf addr + 4096
          · simp [Writer.markPage, heq]
          · by_cases heq' : page = pageOf addr <;> simp [Writer.markPage, heq, heq']
        · rcases htwo k hk with heq | heq
          · rw [heq]
            exact htop
          · rw [heq]
            exact hnext

end

/-! ## Whole traces -/

/-- The writer, and the code pages in the records written so far, in order. -/
structure PageRun where
  writer : Writer := {}
  sent : List UInt64 := []

namespace PageRun

/-- Every call of the writer, with the page map it looks up. -/
def machine (cfg : WriterConfig) : Machine PageRun ((UInt64 → UInt64) × WriterCall) where
  init := {}
  step s input := (s.writer.call cfg input.1 input.2).map fun r =>
    { writer := r.2, sent := s.sent ++ r.1.filterMap recordPage }

/-- The pages sent are those marked in `icache`, and none was sent twice. -/
structure Accounted (s : PageRun) : Prop where
  nodup : s.sent.Nodup
  marked : ∀ page, s.writer.icache page = true ↔ page ∈ s.sent

variable {cfg : WriterConfig} {pagemap : UInt64 → UInt64} {s : PageRun} {w' : Writer}
  {records : List (List UInt8)}

theorem Accounted.instruction (hpages : cfg.requiresIcachePerInsn = false) (h : Accounted s) {i : Inst}
    (hcall : s.writer.instruction cfg pagemap i = some (records, w')) :
    Accounted { writer := w', sent := s.sent ++ records.filterMap recordPage } := by
  obtain ⟨code, w₁, hcode, hrecords, hicache⟩ := Writer.instruction_pages hcall
  rw [Writer.sendCode, hpages] at hcode
  obtain ⟨hnodup, hfresh, hmarked⟩ := Writer.sendPages_accounts hcode
  rw [hrecords]
  refine ⟨nodup_append'.mpr ⟨h.nodup, hnodup, fun page hold hnew => ?_⟩, fun page => ?_⟩
  · have hnot := hfresh page hnew
    rw [(h.marked page).mpr hold] at hnot
    cases hnot
  · show w'.icache page = true ↔ _
    rw [hicache, hmarked, h.marked, mem_append]

theorem Accounted.side (h : Accounted s) {c : SideCall}
    (hcall : s.writer.side cfg pagemap c = (records, w')) :
    Accounted { writer := w', sent := s.sent ++ records.filterMap recordPage } := by
  obtain ⟨rfl, rfl⟩ := Prod.mk.inj hcall
  obtain ⟨hmappings, hicache⟩ := Writer.sendVa2pas_spec cfg pagemap s.writer c.translated
  rw [filterMap_append, hmappings, filterMap_cons_none (recordPage_side c)]
  refine ⟨?_, fun page => ?_⟩
  · rw [filterMap_nil, append_nil, append_nil]
    exact h.nodup
  · show (s.writer.sendVa2pas cfg pagemap c.translated).2.icache page = true ↔ page ∈ s.sent ++ []
    rw [hicache, append_nil]
    exact h.marked page

theorem accounted_of_reachable (hpages : cfg.requiresIcachePerInsn = false)
    (h : (machine cfg).Reachable s) : Accounted s := by
  refine h.invariant (P := Accounted) ⟨nodup_nil, fun page => by simp [machine]⟩ ?_
  rintro s ⟨pagemap, call⟩ s' hs - hstep
  obtain ⟨⟨records, w'⟩, hcall, rfl⟩ := map_eq_some_iff.mp hstep
  cases call with
  | instruction i => exact hs.instruction hpages hcall
  | side c => exact hs.side (Option.some.inj hcall)

end PageRun

/-- **Over a whole trace each code page is written in one record only, and the loop sends the pages of the
instruction**, for a size from 1 to 15 and in at most two iterations, if and only if no byte is in the
last page of the address space. -/
theorem code_pages_sent_once (cfg : WriterConfig) (hpages : cfg.requiresIcachePerInsn = false)
    (s : PageRun) (h : (PageRun.machine cfg).Reachable s) (addr : UInt64) (size : UInt8)
    (hpos : 1 ≤ size.toNat) (hsize : size.toNat ≤ 15) :
    s.sent.Nodup ∧ (∀ page, s.writer.icache page = true ↔ page ∈ s.sent) ∧
      ((∀ w, SendsBytePages cfg w addr size) ↔
        ∀ k < size.toNat, pageOf (addr + UInt64.ofNat k) ≠ lastPage) :=
  ⟨(PageRun.accounted_of_reachable hpages h).nodup, (PageRun.accounted_of_reachable hpages h).marked,
    sendsBytePages_iff hpages hpos (hsize.trans (by decide))⟩

/-- Whole pages of code, all of one byte. -/
def pageConfig : WriterConfig where
  requiresIcachePerInsn := false
  sendVa2paMapping := false
  code := fun _ => 0x90

/-- An instruction of four bytes. -/
def fourBytesAt (addr : UInt64) : WriterCall :=
  .instruction
    { addr := addr
      size := 4
      addresses := []
      isBranch := false
      taken := false
      isPredicate := false
      executed := true }

/-- Two instructions across the same two pages. -/
theorem crossing_pages_sent_once :
    ∃ s, (PageRun.machine pageConfig).Reachable s ∧ s.sent = [0x1000, 0x2000] ∧ s.sent.Nodup ∧
      ∀ w, SendsBytePages pageConfig w 0x1ffe 4 := by
  obtain ⟨s, hs, hsent⟩ := Machine.exists_reachable (m := PageRun.machine pageConfig)
    (P := fun s => s.sent = [0x1000, 0x2000]) [(id, fourBytesAt 0x1ffd), (id, fourBytesAt 0x1ffe)]
    (by decide +kernel)
  have honce := code_pages_sent_once pageConfig rfl s hs 0x1ffe 4 (by decide) (by decide)
  exact ⟨s, hs, hsent, honce.1, honce.2.2.mpr (by decide)⟩

/-- **In the last page of the address space the loop fails**: for its first byte it goes on after two
iterations, and for an instruction that ends in page 0 it sends no page. -/
theorem last_page_fails :
    (({} : Writer).sendCode pageConfig 0xfffffffffffff000 1).isNone ∧
      (({} : Writer).sendCode pageConfig 0xfffffffffffffffe 4).map (·.1) = some [] := by
  decide

end MultiCoreMemory.Sift
