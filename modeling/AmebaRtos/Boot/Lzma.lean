import AmebaRtos.Boot.LzmaWriter
import AmebaRtos.Layout
import AmebaRtos.Lib.Word

/-!
# Decompressing an image

`bootLzma_main_function` of `ameba_boot_lzma.c` reads a blob: the number of its files, their
compressed sizes, 16 bits each, and the files. A file starts with an LZMA header of 13 bytes, of
which the property byte and the output length are used, and is decoded into a buffer of 16 KB and
written to the slot.

The decoder is a parameter that produces at most the bytes asked for. A run records the divisors
of the progress report, the sizes that the header length is subtracted from, and the bytes
decoded.
-/

namespace AmebaRtos.Boot

open Lib List

def BOOTLZMA_LZMA_PROP : UInt8 := (2 * 5 + 0) * 9 + 3
def LZMA_HEADER_SIZE : Nat := 13

variable (blob : Memory)

def totalFiles : Nat := fromLE (blob.window 0 2)

def lzmaFileSize (nFile : Nat) : Nat := fromLE (blob.window (2 + 2 * nFile) 2)

def isLzmaFile (fileAddr : Nat) : Bool :=
  blob (fileAddr + LZMA_HEADER_SIZE) == 0 && blob fileAddr == BOOTLZMA_LZMA_PROP

def outputFileSize (fileAddr : Nat) : Nat := fromLE (blob.window (fileAddr + 5) 4)

/-- `LzmaDecode`, given the number of the file and the output length: whether it succeeds, and what
    is in the buffer. -/
structure Decoder where
  decode : Nat → Nat → Bool × List UInt8
  bounded : ∀ nFile destLen, (decode nFile destLen).2.length ≤ destLen

/-- `ret` is `none` when an assertion has stopped the bootloader. -/
structure LzmaRun where
  writer : LzmaWriter
  divisors : List Nat
  srcSizes : List Nat
  decoded : List Nat
  ret : Option Bool

def LzmaRun.start (writer : LzmaWriter) : LzmaRun := ⟨writer, [], [], [], some true⟩

section Decompress

variable (blob : Memory) (dec : Decoder) (total : Nat) (isWriteNeeded : Bool)

/-- The loop body of `bootLzma_decompress`, with the next write address if it goes on. -/
def decompressFile (nFile fileAddr writeAddr : Nat) (r : LzmaRun) : LzmaRun × Option Nat :=
  let r := { r with
    divisors := r.divisors ++ total / 4 :: if nFile % (total / 4) = 0 then [total] else [] }
  if isLzmaFile blob fileAddr = false then ({ r with ret := some false }, none)
  else
    let out := dec.decode nFile (outputFileSize blob fileAddr)
    let r := { r with
      srcSizes := r.srcSizes ++ [lzmaFileSize blob nFile]
      decoded := r.decoded ++ [out.2.length] }
    if out.1 = false then ({ r with ret := some false }, none)
    else if isWriteNeeded = false then (r, some writeAddr)
    else
      match bootLzmaFlashWrite r.writer writeAddr out.2 with
      | none => ({ r with ret := none }, none)
      | some w => ({ r with writer := w }, some ((writeAddr + out.2.length) % 2 ^ 32))

/-- `bootLzma_decompress`, with `left` files to go. -/
def bootLzmaDecompress : (left nFile fileAddr writeAddr : Nat) → LzmaRun → LzmaRun
  | 0, _, _, _, r => r
  | left + 1, nFile, fileAddr, writeAddr, r =>
    match decompressFile blob dec total isWriteNeeded nFile fileAddr writeAddr r with
    | (r, none) => r
    | (r, some writeAddr) =>
      bootLzmaDecompress left (nFile + 1) (fileAddr + lzmaFileSize blob nFile) writeAddr r

def bootLzmaMainFunction (w : LzmaWriter) (writeAddrSt writeAddrEnd : Nat) : LzmaRun :=
  let writeAllowedSize := u32 ((writeAddrEnd : Int) - writeAddrSt)
  let start := u32 ((writeAddrSt : Int) - SPI_FLASH_BASE)
  let total := totalFiles blob
  let size := total * BOOTLZMA_DECOMP_FILE_SIZE
  if size ≤ writeAllowedSize then
    bootLzmaDecompress blob dec total true total 0 (2 + 2 * total) start
      (.start (bootLzmaFlashRangeErase w start size))
  else .start w

end Decompress

def fileAddr (total : Nat) (sizes : Nat → Nat) : Nat → Nat
  | 0 => 2 + 2 * total
  | nFile + 1 => fileAddr total sizes nFile + sizes nFile

def lzmaFileAddr (total n : Nat) : Nat := fileAddr total (lzmaFileSize blob) n

/-- The header check passes for the first `n` files. -/
def LzmaFiles (total n : Nat) : Prop :=
  ∀ k < n, isLzmaFile blob (lzmaFileAddr blob total k) = true

instance (blob : Memory) (total n : Nat) : Decidable (LzmaFiles blob total n) :=
  inferInstanceAs (Decidable (∀ k < n, _ = _))

section Runs

variable {blob : Memory} {next : Option Nat}

theorem decompressFile_effect
    (hcall : decompressFile blob dec total isWriteNeeded nFile addr writeAddr r = (r', next)) :
    (∃ ds, r'.divisors = r.divisors ++ total / 4 :: ds ∧ ∀ d ∈ ds, d = total) ∧
      (isLzmaFile blob addr = false ∧ next = none ∧ r'.writer = r.writer ∧
          r'.srcSizes = r.srcSizes ∧ r'.decoded = r.decoded ∨
        isLzmaFile blob addr = true ∧ r'.srcSizes = r.srcSizes ++ [lzmaFileSize blob nFile] ∧
          ∃ out, (dec.decode nFile (outputFileSize blob addr)).2 = out ∧
            r'.decoded = r.decoded ++ [out.length] ∧
            (r'.writer = r.writer ∧ (next = none ∨ isWriteNeeded = false) ∨
              bootLzmaFlashWrite r.writer writeAddr out = some r'.writer ∧
                next = some ((writeAddr + out.length) % 2 ^ 32))) := by
  obtain ⟨ds, hds, hall⟩ : ∃ ds, (total / 4 :: if nFile % (total / 4) = 0 then [total] else []) =
      total / 4 :: ds ∧ ∀ d ∈ ds, d = total := by
    refine ⟨_, rfl, fun d hd => ?_⟩
    split at hd
    · exact mem_singleton.mp hd
    · exact absurd hd not_mem_nil
  unfold decompressFile at hcall
  rw [hds] at hcall
  cases hfile : isLzmaFile blob addr with
  | false =>
    rw [hfile] at hcall
    cases hcall
    exact ⟨⟨ds, rfl, hall⟩, .inl ⟨rfl, rfl, rfl, rfl, rfl⟩⟩
  | true =>
    rw [hfile, if_neg (by decide)] at hcall
    dsimp only at hcall
    split at hcall
    · cases hcall
      exact ⟨⟨ds, rfl, hall⟩, .inr ⟨rfl, rfl, _, rfl, rfl, .inl ⟨rfl, .inl rfl⟩⟩⟩
    split at hcall
    · rename_i hneed
      cases hcall
      exact ⟨⟨ds, rfl, hall⟩, .inr ⟨rfl, rfl, _, rfl, rfl, .inl ⟨rfl, .inr hneed⟩⟩⟩
    split at hcall
    · cases hcall
      exact ⟨⟨ds, rfl, hall⟩, .inr ⟨rfl, rfl, _, rfl, rfl, .inl ⟨rfl, .inl rfl⟩⟩⟩
    · rename_i hwrite
      cases hcall
      exact ⟨⟨ds, rfl, hall⟩, .inr ⟨rfl, rfl, _, rfl, rfl, .inr ⟨hwrite, rfl⟩⟩⟩

theorem decompressFile_of_file (hfile : isLzmaFile blob addr = true)
    (hcall : decompressFile blob dec total isWriteNeeded nFile addr writeAddr r = (r', next)) :
    r'.srcSizes = r.srcSizes ++ [lzmaFileSize blob nFile] ∧
      r'.decoded = r.decoded ++ [(dec.decode nFile (outputFileSize blob addr)).2.length] := by
  obtain ⟨_, ⟨hnot, _⟩ | ⟨_, hsrc, _, rfl, hdecoded, _⟩⟩ := decompressFile_effect hcall
  · cases hnot.symm.trans hfile
  · exact ⟨hsrc, hdecoded⟩

theorem decompressFile_grows
    (hcall : decompressFile blob dec total isWriteNeeded nFile addr writeAddr r = (r', next)) :
    r.divisors ⊆ r'.divisors ∧ r.srcSizes ⊆ r'.srcSizes ∧ r.decoded ⊆ r'.decoded := by
  obtain ⟨⟨ds, hds, _⟩, ⟨_, _, _, hsrc, hdecoded⟩ | ⟨_, hsrc, _, _, hdecoded, _⟩⟩ :=
    decompressFile_effect hcall
  all_goals
    rw [hds, hsrc, hdecoded]
    simp

theorem bootLzmaDecompress_ind (Before : Nat → Nat → LzmaRun → Prop) (After : LzmaRun → Prop)
    (hend : ∀ n writeAddr r, Before n writeAddr r → After r)
    (hfile : ∀ n < total, ∀ writeAddr r r' next, Before n writeAddr r →
      decompressFile blob dec total isWriteNeeded n (lzmaFileAddr blob total n) writeAddr r =
        (r', next) → After r' ∧ ∀ writeAddr', next = some writeAddr' → Before (n + 1) writeAddr' r')
    (htotal : n + left = total) (h : Before n writeAddr r) :
    After (bootLzmaDecompress blob dec total isWriteNeeded left n
      (lzmaFileAddr blob total n) writeAddr r) := by
  induction left generalizing n writeAddr r with
  | zero => exact hend n writeAddr r h
  | succ left ih =>
    rcases hcall : decompressFile blob dec total isWriteNeeded n
      (lzmaFileAddr blob total n) writeAddr r with ⟨r', next⟩
    obtain ⟨hafter, hnext⟩ := hfile n (by omega) writeAddr r r' next h hcall
    rw [bootLzmaDecompress, hcall]
    cases next with
    | none => exact hafter
    | some writeAddr' => exact ih (by omega) (hnext writeAddr' rfl)

theorem recorded_of_reached {record : LzmaRun → List Nat}
    (hgrows : ∀ k addr r r' next, decompressFile blob dec total isWriteNeeded k
      (lzmaFileAddr blob total k) addr r = (r', next) → record r ⊆ record r')
    (hgo : ∀ k < n, ∀ r, (decompressFile blob dec total isWriteNeeded k
      (lzmaFileAddr blob total k) writeAddr r).2 = some writeAddr)
    (hfile : ∀ r r' next, decompressFile blob dec total isWriteNeeded n
      (lzmaFileAddr blob total n) writeAddr r = (r', next) → x ∈ record r') (hn : n < total)
    {r : LzmaRun} (htotal : k + left = total) (hk : k ≤ n) :
    x ∈ record (bootLzmaDecompress blob dec total isWriteNeeded left k
      (lzmaFileAddr blob total k) writeAddr r) := by
  induction left generalizing k r with
  | zero => omega
  | succ left ih =>
    rcases hcall : decompressFile blob dec total isWriteNeeded k
      (lzmaFileAddr blob total k) writeAddr r with ⟨r', next⟩
    rw [bootLzmaDecompress, hcall]
    rcases Nat.lt_or_eq_of_le hk with hlt | rfl
    · have hnext := hgo k hlt r
      rw [hcall] at hnext
      cases hnext
      exact ih (by omega) hlt
    have hrecorded := hfile r r' next hcall
    cases next with
    | none => exact hrecorded
    | some writeAddr' =>
      refine bootLzmaDecompress_ind (fun _ _ r => x ∈ record r) (x ∈ record ·)
        (fun _ _ _ h => h) (fun k _ addr r r' next h hcall => ?_) (by omega) hrecorded
      have hstays := hgrows k addr r r' next hcall h
      exact ⟨hstays, fun _ _ => hstays⟩

end Runs

/-! ### The arithmetic of the header -/

/-- No division by zero, and no file shorter than the header that is subtracted. -/
def LzmaRun.ArithmeticOk (r : LzmaRun) : Prop :=
  (∀ d ∈ r.divisors, d ≠ 0) ∧ ∀ size ∈ r.srcSizes, LZMA_HEADER_SIZE ≤ size

/-- The blob starts with this header. -/
def HasHeader (total : UInt16) (sizes : Nat → UInt16) : Prop :=
  totalFiles blob = total.toNat ∧ ∀ n < total.toNat, lzmaFileSize blob n = (sizes n).toNat

section Header

variable {blob : Memory} {total : Nat}

theorem isLzmaFile_iff : isLzmaFile blob addr = true ↔
    blob (addr + LZMA_HEADER_SIZE) = 0 ∧ blob addr = BOOTLZMA_LZMA_PROP := by
  simp [isLzmaFile]

theorem fileAddr_congr (h : ∀ k < n, sizes k = sizes' k) :
    fileAddr total sizes n = fileAddr total sizes' n := by
  induction n with
  | zero => rfl
  | succ n ih =>
    rw [fileAddr, fileAddr, ih fun k hk => h k (Nat.lt_succ_of_lt hk), h n (Nat.lt_succ_self n)]

theorem LzmaFiles.size_ne (h : LzmaFiles blob total (n + 1)) (hk : k < n) :
    lzmaFileSize blob k ≠ LZMA_HEADER_SIZE := by
  intro hsize
  have hzero := (isLzmaFile_iff.mp (h k (Nat.lt_succ_of_lt hk))).1
  have hprop := (isLzmaFile_iff.mp (h (k + 1) (Nat.succ_lt_succ hk))).2
  rw [lzmaFileAddr, fileAddr, hsize] at hprop
  exact absurd (hzero.symm.trans hprop) (by decide)

theorem arithmeticOk_of_sizes (htotal : 4 ≤ total)
    (hsizes : ∀ n < total, lzmaFileSize blob n < LZMA_HEADER_SIZE →
      ∃ k < n, lzmaFileSize blob k = LZMA_HEADER_SIZE) :
    (bootLzmaDecompress blob dec total isWriteNeeded total 0 (2 + 2 * total) writeAddr
      (.start w)).ArithmeticOk := by
  refine bootLzmaDecompress_ind (fun n _ r => r.ArithmeticOk ∧ LzmaFiles blob total n)
    LzmaRun.ArithmeticOk (fun _ _ _ h => h.1) ?_ (zero_add total) ⟨⟨nofun, nofun⟩, nofun⟩
  intro n hn writeAddr r r' next hbefore hcall
  obtain ⟨⟨hdivisors, hsrc⟩, hfiles⟩ := hbefore
  obtain ⟨⟨ds, hds, hall⟩, heffect⟩ := decompressFile_effect hcall
  have hdivisors' : ∀ d ∈ r'.divisors, d ≠ 0 := by
    rw [hds]
    refine forall_mem_append.mpr ⟨hdivisors, forall_mem_cons.mpr ⟨by omega, fun d hd => ?_⟩⟩
    have := hall d hd
    omega
  rcases heffect with ⟨_, rfl, _, hsame, _⟩ | ⟨hfile, hsrc', _⟩
  · exact ⟨⟨hdivisors', hsame ▸ hsrc⟩, nofun⟩
  have hfiles' : LzmaFiles blob total (n + 1) := Nat.forall_lt_succ_right.mpr ⟨hfiles, hfile⟩
  have hok : r'.ArithmeticOk := by
    refine ⟨hdivisors', ?_⟩
    rw [hsrc']
    refine forall_mem_append.mpr ⟨hsrc, forall_mem_singleton.mpr ?_⟩
    by_contra hshort
    obtain ⟨k, hk, hexact⟩ := hsizes n hn (Nat.lt_of_not_le hshort)
    exact hfiles'.size_ne hk hexact
  exact ⟨hok, fun _ _ => ⟨hok, hfiles'⟩⟩

/-- A blob with this header whose files up to number `n` start like LZMA files. -/
def markedBlob (total : Nat) (sizes : Nat → Nat) (n : Nat) : Memory := fun a =>
  if a < 2 then (toLE 2 total).getD a 0
  else if a < 2 + 2 * total then (toLE 2 (sizes ((a - 2) / 2))).getD ((a - 2) % 2) 0
  else if ∃ k ≤ n, fileAddr total sizes k = a then BOOTLZMA_LZMA_PROP
  else 0

theorem hasHeader_markedBlob (total : UInt16) (sizes : Nat → UInt16) (n : Nat) :
    HasHeader (markedBlob total.toNat (fun k => (sizes k).toNat) n) total sizes := by
  have hword : ∀ word : UInt16, ∀ mem : Memory, ∀ addr,
      (∀ k < 2, mem (addr + k) = (toLE 2 word.toNat).getD k 0) →
        fromLE (mem.window addr 2) = word.toNat := by
    intro word mem addr hbytes
    have hwindow : mem.window addr (toLE 2 word.toNat).length = toLE 2 word.toNat :=
      Memory.window_eq_iff.mpr (by rwa [length_toLE])
    rw [length_toLE] at hwindow
    rw [hwindow, fromLE_toLE word.toNat_lt]
  constructor
  · apply hword
    intro k hk
    rw [zero_add, markedBlob, if_pos hk]
  · intro m hm
    apply hword
    intro k hk
    rw [markedBlob, if_neg (by omega), if_pos (by omega), show (2 + 2 * m + k - 2) / 2 = m by omega,
      show (2 + 2 * m + k - 2) % 2 = k by omega]

theorem fileAddr_gap {n j : Nat} (hlong : ∀ k < n, LZMA_HEADER_SIZE < sizes k) (hj : j < n) :
    fileAddr total sizes j + LZMA_HEADER_SIZE < fileAddr total sizes n := by
  induction n with
  | zero => omega
  | succ n ih =>
    have hlast := hlong n (Nat.lt_succ_self n)
    rw [fileAddr]
    rcases Nat.lt_or_eq_of_le (Nat.le_of_lt_succ hj) with hlt | rfl
    · have := ih (fun k hk => hlong k (Nat.lt_succ_of_lt hk)) hlt
      omega
    · omega

theorem header_le_fileAddr (n : Nat) : 2 + 2 * total ≤ fileAddr total sizes n := by
  induction n with
  | zero => exact Nat.le_refl _
  | succ n ih => exact Nat.le_add_right_of_le ih

theorem isLzmaFile_markedBlob (hlong : ∀ k < n, LZMA_HEADER_SIZE < sizes k) :
    ∀ k ≤ n, isLzmaFile (markedBlob total sizes n) (fileAddr total sizes k) = true := by
  intro k hk
  have hle := @header_le_fileAddr total sizes k
  refine isLzmaFile_iff.mpr ⟨?_, ?_⟩
  · rw [markedBlob, if_neg (by omega), if_neg (by omega), if_neg]
    rintro ⟨j, hj, heq⟩
    rcases Nat.lt_trichotomy j k with hlt | rfl | hgt
    · have := @fileAddr_gap total sizes k j (fun i hi => hlong i (by omega)) hlt
      omega
    · exact absurd heq (by simp [LZMA_HEADER_SIZE])
    · have := @fileAddr_gap total sizes j k (fun i hi => hlong i (by omega)) hgt
      omega
  · rw [markedBlob, if_neg (by omega), if_neg (by omega), if_pos ⟨k, hk, rfl⟩]

/-- A decoder that succeeds and gives nothing. -/
def emptyDecoder : Decoder := ⟨fun _ _ => (true, []), fun _ _ => Nat.zero_le _⟩

theorem interval_recorded (hpos : 0 < total) :
    total / 4 ∈ (bootLzmaDecompress blob dec total isWriteNeeded total 0 (2 + 2 * total) 0
      (.start w)).divisors := by
  refine recorded_of_reached (n := 0) (fun _ _ _ _ _ hcall => (decompressFile_grows hcall).1) nofun
    (fun r r' next hcall => ?_) hpos (zero_add total) (Nat.le_refl 0)
  obtain ⟨⟨ds, hds, _⟩, _⟩ := decompressFile_effect hcall
  rw [hds]
  exact mem_append_right _ (.head _)

theorem size_recorded {n : Nat} (hn : n < total) (hfiles : LzmaFiles blob total (n + 1)) :
    lzmaFileSize blob n ∈
      (bootLzmaDecompress blob emptyDecoder total false total 0 (2 + 2 * total) 0
      (.start w)).srcSizes := by
  refine recorded_of_reached (n := n) (fun _ _ _ _ _ hcall => (decompressFile_grows hcall).2.1)
    (fun k hk r => ?_) (fun r r' next hcall => ?_) hn (zero_add total) (Nat.zero_le n)
  · rw [decompressFile, hfiles k (Nat.lt_succ_of_lt hk)]
    rfl
  · rw [(decompressFile_of_file (hfiles n (Nat.lt_succ_self n)) hcall).1]
    exact mem_append_right _ (.head _)

end Header

/-- **When the arithmetic is sound**, whatever the files and the decoder: if there is no file, or
    there are four or more and a file shorter than an LZMA header comes behind one that is just as
    long. -/
theorem header_arithmetic_iff (total : UInt16) (sizes : Nat → UInt16) :
    (∀ blob, HasHeader blob total sizes → ∀ dec isWriteNeeded writeAddr w,
      (bootLzmaDecompress blob dec (totalFiles blob) isWriteNeeded (totalFiles blob) 0
        (2 + 2 * totalFiles blob) writeAddr (.start w)).ArithmeticOk) ↔
      total.toNat = 0 ∨ 4 ≤ total.toNat ∧ ∀ n < total.toNat, (sizes n).toNat < LZMA_HEADER_SIZE →
        ∃ k < n, (sizes k).toNat = LZMA_HEADER_SIZE := by
  constructor
  · intro hall
    by_cases hzero : total.toNat = 0
    · exact .inl hzero
    refine .inr ⟨?_, fun n => ?_⟩
    · have hheader := hasHeader_markedBlob total sizes 0
      have hok := hall _ hheader emptyDecoder false 0 (.boot fun _ => 0)
      rw [hheader.1] at hok
      have hne := hok.1 _ (interval_recorded (Nat.pos_of_ne_zero hzero))
      omega
    · induction n using Nat.strongRecOn with
      | ind n ih =>
        intro hn hshort
        by_contra hnone
        have hlong : ∀ k < n, LZMA_HEADER_SIZE < (sizes k).toNat := by
          intro k hk
          by_contra hle
          rcases Nat.lt_or_eq_of_le (Nat.le_of_not_lt hle) with hlt | heq
          · obtain ⟨j, hj, hexact⟩ := ih k hk (Nat.lt_trans hk hn) hlt
            exact hnone ⟨j, Nat.lt_trans hj hk, hexact⟩
          · exact hnone ⟨k, hk, heq⟩
        have hheader := hasHeader_markedBlob total sizes n
        have hfiles : LzmaFiles (markedBlob total.toNat (fun k => (sizes k).toNat) n) total.toNat
            (n + 1) := by
          intro k hk
          rw [lzmaFileAddr, fileAddr_congr fun j hj => hheader.2 j (by omega)]
          exact isLzmaFile_markedBlob hlong k (Nat.le_of_lt_succ hk)
        have hok := hall _ hheader emptyDecoder false 0 (.boot fun _ => 0)
        rw [hheader.1] at hok
        have hle := hok.2 _ (size_recorded hn hfiles)
        rw [hheader.2 n hn] at hle
        omega
  · intro hcond blob hheader dec isWriteNeeded writeAddr w
    rw [hheader.1]
    rcases hcond with hzero | ⟨hfour, hsizes⟩
    · rw [hzero]
      exact ⟨nofun, nofun⟩
    refine arithmeticOk_of_sizes hfour (fun n hn hshort => ?_)
    rw [hheader.2 n hn] at hshort
    obtain ⟨k, hk, hexact⟩ := hsizes n hn hshort
    exact ⟨k, hk, (hheader.2 k (Nat.lt_trans hk hn)).trans hexact⟩

/-- A blob that holds one file. -/
theorem one_file_divides_by_zero :
    ¬ (bootLzmaDecompress (fun a => if a = 0 then 1 else 0) emptyDecoder 1 true 1 0 4 0
      (.start (.boot fun _ => 0))).ArithmeticOk :=
  fun h => h.1 0 (by decide) rfl

/-! ### What is written -/

structure WriteRange where
  start : Nat
  stop : Nat
  base_le : SPI_FLASH_BASE ≤ start
  start_le : start ≤ stop
  stop_lt : stop < 2 ^ 32

/-- The flash is written and erased inside the range only, and the files fit the buffer. -/
def LzmaRun.Contained (r : LzmaRun) (range : WriteRange) : Prop :=
  (∀ op ∈ r.writer.ops, ∀ a, op.Touches a →
    range.start ≤ SPI_FLASH_BASE + a ∧ SPI_FLASH_BASE + a ≤ range.stop) ∧
    ∀ len ∈ r.decoded, len ≤ BOOTLZMA_DECOMP_FILE_SIZE

/-- The files that can be reached announce at most the buffer. With a start inside a sector there is
    no return. -/
def OutputsFit (total start : Nat) : Prop :=
  ∀ n < total, LzmaFiles blob total (n + 1) → n = 0 ∨ start % BOOTLZMA_ERASE_SECTOR_SIZE = 0 →
    outputFileSize blob (lzmaFileAddr blob total n) ≤ BOOTLZMA_DECOMP_FILE_SIZE

section Containment

variable {blob : Memory} {range : WriteRange} {next : Option Nat}

theorem mainFunction_eq : bootLzmaMainFunction blob dec w range.start range.stop =
      if totalFiles blob * BOOTLZMA_DECOMP_FILE_SIZE ≤ range.stop - range.start then
        bootLzmaDecompress blob dec (totalFiles blob) true (totalFiles blob) 0
          (2 + 2 * totalFiles blob)
          (range.start - SPI_FLASH_BASE) (.start (bootLzmaFlashRangeErase w
            (range.start - SPI_FLASH_BASE) (totalFiles blob * BOOTLZMA_DECOMP_FILE_SIZE)))
      else .start w := by
  obtain ⟨start, stop, hbase, hle, hlt⟩ := range
  rw [bootLzmaMainFunction, ← Int.ofNat_sub hbase, ← Int.ofNat_sub hle, u32_natCast (by omega),
    u32_natCast (by omega)]

def LzmaRun.Within (off hi : Nat) (r : LzmaRun) : Prop :=
  (∀ op ∈ r.writer.ops, ∀ a, op.Touches a → off ≤ a ∧ a < hi) ∧
    ∀ len ∈ r.decoded, len ≤ BOOTLZMA_DECOMP_FILE_SIZE

/-- A run in front of file `n`. -/
structure FileAhead (blob : Memory) (total off hi n writeAddr : Nat) (r : LzmaRun) : Prop where
  within : r.Within off hi
  ends : off % BOOTLZMA_ERASE_SECTOR_SIZE = 0 → r.writer.Ends hi
  files : LzmaFiles blob total n
  low : off ≤ writeAddr
  high : writeAddr ≤ off + n * BOOTLZMA_DECOMP_FILE_SIZE
  aligned : n = 0 ∨ off % BOOTLZMA_ERASE_SECTOR_SIZE = 0

theorem aligned_of_write (h : bootLzmaFlashWrite w addr data = some w') :
    addr % BOOTLZMA_ERASE_SECTOR_SIZE = 0 := by
  by_contra hodd
  rw [bootLzmaFlashWrite, if_pos hodd] at h
  cases h

theorem FileAhead.step (hhi : off + total * BOOTLZMA_DECOMP_FILE_SIZE = hi)
    (hout : OutputsFit blob total off) (hn : n < total)
    (h : FileAhead blob total off hi n writeAddr r)
    (hcall :
      decompressFile blob dec total true n (lzmaFileAddr blob total n) writeAddr r = (r', next)) :
    r'.Within off hi ∧
      ∀ writeAddr', next = some writeAddr' → FileAhead blob total off hi (n + 1) writeAddr' r' := by
  obtain ⟨⟨hops, hdecoded⟩, hends, hfiles, hlow, hhigh, hreach⟩ := h
  obtain ⟨_, ⟨_, rfl, hwriter, _, hsame⟩ | ⟨hfile, _, out, hdecode, hmore, hwritten⟩⟩ :=
    decompressFile_effect hcall
  · exact ⟨⟨hwriter ▸ hops, hsame ▸ hdecoded⟩, nofun⟩
  have hfiles' : LzmaFiles blob total (n + 1) := Nat.forall_lt_succ_right.mpr ⟨hfiles, hfile⟩
  have hsize := Nat.le_trans (hdecode ▸ dec.bounded n _) (hout n hn hfiles' hreach)
  have hdecoded' : ∀ len ∈ r'.decoded, len ≤ BOOTLZMA_DECOMP_FILE_SIZE := by
    rw [hmore]
    exact forall_mem_append.mpr ⟨hdecoded, forall_mem_singleton.mpr hsize⟩
  rcases hwritten with ⟨hwriter, hnone | hneed⟩ | ⟨hwrite, rfl⟩
  · exact ⟨⟨hwriter ▸ hops, hdecoded'⟩, fun _ hnext => absurd (hnone.symm.trans hnext) nofun⟩
  · cases hneed
  have haligned := aligned_of_write hwrite
  have hoff : off % BOOTLZMA_ERASE_SECTOR_SIZE = 0 := by
    rcases hreach with rfl | hoff
    · rwa [show off = writeAddr by omega]
    · exact hoff
  have hroom : (n + 1) * BOOTLZMA_DECOMP_FILE_SIZE ≤ total * BOOTLZMA_DECOMP_FILE_SIZE :=
    Nat.mul_le_mul_right _ hn
  rw [Nat.succ_mul] at hroom
  obtain ⟨w', hwrite', hextends, _⟩ :=
    bootLzmaFlashWrite_spec haligned (hends hoff) hsize (by omega)
  cases hwrite.symm.trans hwrite'
  obtain ⟨ops, hnew, _, hin⟩ := hextends.ops
  have hwithin : r'.Within off hi := by
    refine ⟨?_, hdecoded'⟩
    rw [hnew]
    exact forall_mem_append.mpr
      ⟨hops, fun op hop a ha => ⟨Nat.le_trans hlow (hin op hop a ha).1, (hin op hop a ha).2⟩⟩
  have hends' := (hends hoff).extends hextends
  have hfits := hends'.fits
  refine ⟨hwithin, fun writeAddr' hnext => ?_⟩
  cases hnext
  exact ⟨hwithin, fun _ => hends', hfiles', by omega, by rw [Nat.succ_mul]; omega, .inr hoff⟩

theorem within_of_outputsFit (hout : OutputsFit blob total off) (w : LzmaWriter) (hops : w.ops = [])
    (hfits : off + total * BOOTLZMA_DECOMP_FILE_SIZE < 2 ^ 32) :
    (bootLzmaDecompress blob dec total true total 0 (2 + 2 * total) off
      (.start (bootLzmaFlashRangeErase w off (total * BOOTLZMA_DECOMP_FILE_SIZE)))).Within off
        (off + total * BOOTLZMA_DECOMP_FILE_SIZE) := by
  refine bootLzmaDecompress_ind (FileAhead blob total off _) _ (fun _ _ _ h => h.within)
    (fun n hn _ _ _ _ h hcall => h.step rfl hout hn hcall) (zero_add total) ?_
  constructor
  case within => exact ⟨fun op hop => absurd (hops ▸ hop) not_mem_nil, nofun⟩
  case ends => exact fun haligned => rangeErase_ends w total haligned hfits
  case files => nofun
  case low => exact Nat.le_refl off
  case high => exact Nat.le_add_right ..
  case aligned => exact .inl rfl

/-- A decoder that gives nothing but for one file, and for that all that is asked for. -/
def fullDecoder (n : Nat) : Decoder where
  decode nFile destLen := (true, if nFile = n then List.replicate destLen 0 else [])
  bounded nFile destLen := by
    split
    · exact Nat.le_of_eq length_replicate
    · exact Nat.zero_le destLen

theorem output_recorded (hn : n < total) (hfiles : LzmaFiles blob total (n + 1))
    (hreach : n = 0 ∨ off % BOOTLZMA_ERASE_SECTOR_SIZE = 0) (hoff : off < 2 ^ 32) :
    outputFileSize blob (lzmaFileAddr blob total n) ∈ (bootLzmaDecompress blob (fullDecoder n) total
      true total 0 (2 + 2 * total) off r).decoded := by
  refine recorded_of_reached (n := n) (fun _ _ _ _ _ hcall => (decompressFile_grows hcall).2.2)
    (fun k hk r => ?_) (fun r r' next hcall => ?_) hn (zero_add total) (Nat.zero_le n)
  · have haligned : off % BOOTLZMA_ERASE_SECTOR_SIZE = 0 := hreach.resolve_left (by omega)
    simpa [decompressFile, hfiles k (Nat.lt_succ_of_lt hk), fullDecoder, Nat.ne_of_lt hk,
      bootLzmaFlashWrite, haligned] using hoff
  · rw [(decompressFile_of_file (hfiles n (Nat.lt_succ_self n)) hcall).2]
    simp [fullDecoder]

end Containment

/-- **When the decompressor stays inside the slot and its buffer**, whatever the decoder does: if
    the blob is refused for its number of files, or the files that can be reached announce at most
    16 KB. -/
theorem decompression_contained_iff (range : WriteRange) :
    (∀ dec flash, (bootLzmaMainFunction blob dec (.boot flash) range.start range.stop).Contained
        range) ↔
      range.stop - range.start < totalFiles blob * BOOTLZMA_DECOMP_FILE_SIZE ∨
        OutputsFit blob (totalFiles blob) range.start := by
  have hbase := range.base_le
  have hle := range.start_le
  have hlt := range.stop_lt
  have hoff : OutputsFit blob (totalFiles blob) (range.start - SPI_FLASH_BASE) ↔
      OutputsFit blob (totalFiles blob) range.start := by
    have haligned : (range.start - SPI_FLASH_BASE) % BOOTLZMA_ERASE_SECTOR_SIZE = 0 ↔
        range.start % BOOTLZMA_ERASE_SECTOR_SIZE = 0 := by
      simp only [SPI_FLASH_BASE, BOOTLZMA_ERASE_SECTOR_SIZE] at hbase ⊢
      omega
    rw [OutputsFit, OutputsFit, haligned]
  rw [← hoff, ← Nat.not_le]
  constructor
  · intro hall
    refine or_iff_not_imp_left.mpr fun hroom n hn hfiles hreach => ?_
    have hcontained := (hall (fullDecoder n) fun _ => 0).2
    rw [mainFunction_eq, if_pos (not_not.mp hroom)] at hcontained
    exact hcontained _ (output_recorded hn hfiles hreach (by omega))
  · intro hcond dec flash
    rw [mainFunction_eq]
    by_cases hroom : totalFiles blob * BOOTLZMA_DECOMP_FILE_SIZE ≤ range.stop - range.start
    · rw [if_pos hroom]
      obtain ⟨hops, hdecoded⟩ := within_of_outputsFit (hcond.resolve_left (not_not.mpr hroom))
        (.boot flash) rfl (by omega)
      refine ⟨fun op hop a ha => ?_, hdecoded⟩
      have := hops op hop a ha
      omega
    · rw [if_neg hroom]
      exact ⟨fun op hop => absurd hop not_mem_nil, fun op hop => absurd hop not_mem_nil⟩

/-- Four files, of which the first announces 64 KB. -/
def largeFileBlob : Memory := fun a =>
  if a = 0 then 4 else if a = 10 then BOOTLZMA_LZMA_PROP else if a = 17 then 1 else 0

def megabyteRange : WriteRange := ⟨0x08100000, 0x081FFFFF, by decide, by decide, by decide⟩

theorem large_file_overflows :
    ¬ (bootLzmaMainFunction largeFileBlob (fullDecoder 0) (.boot fun _ => 0) megabyteRange.start
      megabyteRange.stop).Contained megabyteRange := by
  intro h
  have hdecoded := h.2
  rw [mainFunction_eq, if_pos (by decide)] at hdecoded
  have hfits := hdecoded _ (output_recorded (by decide) (by decide) (.inl rfl) (by decide))
  exact absurd hfits (by decide)

end AmebaRtos.Boot
