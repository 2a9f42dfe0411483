import NetworkHomework.Foundation.OnesComplement
import NetworkHomework.Ftp.Packet

/-!
# What `in_cksum` computes

The words of a buffer have a one's complement sum, and `in_cksum` returns its
complement.  The code adds the words in an `int`, with the carries piling up in the upper
half, and folds twice; `inCksum_internet` says that up to 65536 bytes the `int` does
not overflow and that the two folds are enough.

A packet verifies when its checksum is 0, that is, when the sum of its words is a
positive multiple of 65535 (`inCksum_eq_zero_iff`).  The rest follows from this:
zeros behind a packet do not matter, a packet signed by its sender verifies, and since
swapping the bytes of a word is multiplication by 256 modulo 65535, it does so on a host
of either byte order.
-/

namespace NetworkHomework.Ftp

open OnesComplement

/-! ## The words of a buffer -/

theorem ByteOrder.load_le (order : ByteOrder) (first second : UInt8) :
    order.load first second ≤ 65535 := by
  have := first.toNat_lt
  have := second.toNat_lt
  cases order <;> simp only [ByteOrder.load] <;> omega

/-- The 16-bit words, a lone last byte padded with a zero byte behind it. -/
def words (order : ByteOrder) : List UInt8 → List ℕ
  | first :: second :: rest => order.load first second :: words order rest
  | [last] => [order.load last 0]
  | [] => []

/-- Their ordinary sum. -/
def wordSum (order : ByteOrder) (buffer : List UInt8) : ℕ := (words order buffer).sum

variable {order : ByteOrder} {buffer : List UInt8}

theorem words_le : ∀ w ∈ words order buffer, w ≤ 65535 := by
  induction buffer using words.induct with
  | case1 first second rest ih =>
      rw [words, List.forall_mem_cons]
      exact ⟨order.load_le first second, ih⟩
  | case2 last =>
      rw [words, List.forall_mem_singleton]
      exact order.load_le last 0
  | case3 => simp [words]

theorem wordSum_cons_cons (first second : UInt8) (rest : List UInt8) :
    wordSum order (first :: second :: rest) = order.load first second + wordSum order rest := by
  rw [wordSum, words, List.sum_cons, wordSum]

/-- The largest sum a buffer can have. -/
theorem wordSum_le : wordSum order buffer ≤ 65535 * ((buffer.length + 1) / 2) := by
  induction buffer using words.induct with
  | case1 first second rest ih =>
      have := order.load_le first second
      rw [wordSum_cons_cons, List.length_cons, List.length_cons]
      omega
  | case2 last =>
      have := order.load_le last 0
      simpa [wordSum, words]
  | case3 => simp [wordSum, words]

theorem sumWords_eq (n : ℕ) : sumWords order n buffer = n + wordSum order buffer := by
  induction buffer using words.induct generalizing n with
  | case1 first second rest ih =>
      rw [sumWords, ih, wordSum_cons_cons, Nat.add_assoc]
  | case2 last => simp [sumWords, wordSum, words]
  | case3 => simp [sumWords, wordSum, words]

/-! ## The `int` accumulator -/

/-- The values of `int sum`, oldest first, in the loop and at the odd byte behind it. -/
def loopSums (order : ByteOrder) : ℤ → List UInt8 → List ℤ
  | sum, first :: second :: rest =>
      sum :: loopSums order (sum + order.load first second) rest
  | sum, [last] => [sum, sum + order.load last 0]
  | sum, [] => [sum]

/-- All values of `int sum` up to the complement: after the loop come
`(sum >> 16) + (sum & 0xFFFF)` and `sum + (sum >> 16)`. -/
def inCksumSums (order : ByteOrder) (buffer : List UInt8) : List ℤ :=
  let sums := loopSums order 0 buffer
  let sum := sums.getLastD 0
  let folded := (sum >>> (16 : ℕ)) + sum % 65536
  sums ++ [folded, folded + (folded >>> (16 : ℕ))]

/-- `answer = ~sum`, an `unsigned short`, for the last value of `sum`. -/
def inCksumAnswer (order : ByteOrder) (buffer : List UInt8) : ℕ :=
  ((~~~ (inCksumSums order buffer).getLastD 0) % 65536).toNat

theorem getLast?_loopSums (n : ℕ) :
    (loopSums order n buffer).getLast? = some ((sumWords order n buffer : ℕ) : ℤ) := by
  induction buffer using words.induct generalizing n with
  | case1 first second rest ih =>
      rw [loopSums, sumWords, List.getLast?_cons, ← Int.natCast_add, ih]
      rfl
  | case2 last => simp [loopSums, sumWords]
  | case3 => simp [loopSums, sumWords]

/-- The accumulator only grows. -/
theorem loopSums_bounds (n : ℕ) :
    ∀ sum ∈ loopSums order n buffer, 0 ≤ sum ∧ sum ≤ (n + wordSum order buffer : ℕ) := by
  induction buffer using words.induct generalizing n with
  | case1 first second rest ih =>
      rw [loopSums, List.forall_mem_cons, wordSum_cons_cons, ← Int.natCast_add]
      refine ⟨by omega, fun sum hmem => ?_⟩
      have h := ih (n + order.load first second) sum hmem
      omega
  | case2 last =>
      simp only [loopSums, wordSum, words, List.forall_mem_cons, List.sum_singleton]
      refine ⟨by omega, by omega, by simp⟩
  | case3 =>
      simp only [loopSums, wordSum, words, List.forall_mem_singleton, List.sum_nil]
      omega

theorem inCksumSums_eq :
    inCksumSums order buffer = loopSums order 0 buffer ++
      [((fold 65535 (wordSum order buffer) : ℕ) : ℤ),
        ((fold 65535 (wordSum order buffer) + fold 65535 (wordSum order buffer) / 65536 : ℕ) : ℤ)]
    := by
  have hlast : (loopSums order 0 buffer).getLastD 0 = (wordSum order buffer : ℕ) := by
    have h := @getLast?_loopSums order buffer 0
    rw [sumWords_eq, Nat.zero_add] at h
    rw [List.getLastD_eq_getLast?, ← Int.natCast_zero, h, Option.getD_some]
  simp only [inCksumSums, hlast, fold, Int.shiftRight_eq_div_pow]
  norm_cast

theorem complement_eq (n : ℤ) : ~~~ n = -n - 1 := by
  cases n with
  | ofNat n =>
      simp [Complement.complement, Int.not]
      omega
  | negSucc n => simp [Complement.complement, Int.not]

theorem inCksum_eq (h : wordSum order buffer < 65536 * 65536) :
    inCksum order buffer = 65535 - residue 65535 (wordSum order buffer) := by
  rw [← fold_fold h]
  simp only [inCksum, sumWords_eq, Nat.zero_add]
  rfl

/-- **The Internet checksum.**  On up to 65536 bytes the accumulator stays within the positive
`int`s, and the result is the complement of the one's complement sum of the words. -/
theorem inCksum_internet (order : ByteOrder) {buffer : List UInt8}
    (h : buffer.length ≤ 65536) :
    (∀ sum ∈ inCksumSums order buffer, 0 ≤ sum ∧ sum < 2 ^ 31) ∧
      inCksumAnswer order buffer = 2 ^ 16 - 1 - sum 65535 (words order buffer) ∧
      inCksum order buffer = inCksumAnswer order buffer := by
  have hsum : wordSum order buffer ≤ 65535 * 32768 := by
    have := @wordSum_le order buffer
    omega
  have hfold := @fold_fold 65535 (wordSum order buffer) (by omega)
  have hanswer : inCksumAnswer order buffer = 65535 - residue 65535 (wordSum order buffer) := by
    rw [inCksumAnswer, inCksumSums_eq, List.getLastD_eq_getLast?]
    simp only [List.getLast?_append, List.getLast?_cons_cons, List.getLast?_singleton,
      Option.some_or, Option.getD_some, complement_eq]
    omega
  refine ⟨?_, ?_, ?_⟩
  · intro sum hmem
    rw [inCksumSums_eq, List.mem_append] at hmem
    rcases hmem with hmem | hmem
    · have hbounds := loopSums_bounds 0 sum hmem
      omega
    · simp only [List.mem_cons, List.not_mem_nil, or_false, fold] at hmem
      omega
  · rw [hanswer, sum_eq (by decide) words_le]
    rfl
  · rw [hanswer, inCksum_eq (by omega)]

theorem inCksum_internet_odd :
    inCksum .little [1, 0, 255, 255, 2] = 65532 ∧
      inCksumAnswer .little [1, 0, 255, 255, 2] =
        2 ^ 16 - 1 - sum 65535 (words .little [1, 0, 255, 255, 2]) :=
  ⟨by decide, (inCksum_internet .little (by decide)).2.1⟩

/-! ## Verification -/

theorem wordSum_lt (h : buffer.length ≤ 65536) : wordSum order buffer < 65536 * 65536 := by
  have := @wordSum_le order buffer
  omega

/-- **A buffer verifies** when its words add up to a positive multiple of 65535. -/
theorem inCksum_eq_zero_iff (h : buffer.length ≤ 65536) :
    inCksum order buffer = 0 ↔ 0 < wordSum order buffer ∧ 65535 ∣ wordSum order buffer := by
  have hle := residue_le (by decide : 0 < 65535) (wordSum order buffer)
  rw [inCksum_eq (wordSum_lt h), ← residue_eq_self_iff (by decide)]
  omega

/-- A buffer verifies when the one's complement sum of its words is all ones. -/
theorem inCksum_eq_zero_iff_sum (h : buffer.length ≤ 65536) :
    inCksum order buffer = 0 ↔ sum 65535 (words order buffer) = 65535 := by
  rw [inCksum_eq_zero_iff h, sum_eq (by decide) words_le, ← residue_eq_self_iff (by decide)]
  rfl

/-- A buffer may be cut anywhere: behind an odd number of bytes, the rest starts in the second half
of a word. -/
theorem wordSum_cut (n : ℕ) : wordSum order buffer =
    wordSum order (buffer.take n) + wordSum order (List.replicate (n % 2) 0 ++ buffer.drop n) := by
  induction buffer using words.induct generalizing n with
  | case1 first second rest ih =>
      match n with
      | 0 => simp [wordSum, words]
      | 1 =>
          have hload : order.load first second = order.load first 0 + order.load 0 second := by
            cases order <;> simp [ByteOrder.load]
          simp only [List.take_succ_cons, List.take_zero, List.drop_succ_cons, List.drop_zero,
            Nat.one_mod, List.replicate_one, List.singleton_append, wordSum_cons_cons, hload]
          simp [wordSum, words, Nat.add_assoc]
      | n + 2 =>
          rw [List.take_succ_cons, List.take_succ_cons, List.drop_succ_cons, List.drop_succ_cons,
            wordSum_cons_cons, wordSum_cons_cons, ih n, Nat.add_mod_right, Nat.add_assoc]
  | case2 last =>
      match n with
      | 0 => simp [wordSum, words]
      | n + 1 =>
          have hzeros : wordSum order (List.replicate ((n + 1) % 2) 0) = 0 := by
            rcases Nat.mod_two_eq_zero_or_one (n + 1) with h | h <;> rw [h] <;> cases order <;> rfl
          simp [hzeros]
  | case3 =>
      have hzeros : wordSum order (List.replicate (n % 2) 0) = 0 := by
        rcases Nat.mod_two_eq_zero_or_one n with h | h <;> rw [h] <;> cases order <;> rfl
      simp [hzeros]

theorem wordSum_append (first second : List UInt8) (h : first.length % 2 = 0) :
    wordSum order (first ++ second) = wordSum order first + wordSum order second := by
  have hcut := @wordSum_cut order (first ++ second) first.length
  rwa [List.take_left, List.drop_left, h, List.replicate_zero, List.nil_append] at hcut

theorem wordSum_append_zeros (n : ℕ) :
    wordSum order (buffer ++ List.replicate n 0) = wordSum order buffer := by
  have hzeros : ∀ k, wordSum order (List.replicate k 0) = 0 := by
    intro k
    induction k using Nat.twoStepInduction with
    | zero => rfl
    | one => cases order <;> rfl
    | more k ih _ =>
        rw [List.replicate_succ, List.replicate_succ, wordSum_cons_cons, ih]
        cases order <;> rfl
  rw [@wordSum_cut order (buffer ++ List.replicate n 0) buffer.length, List.take_left,
    List.drop_left, ← List.replicate_add, hzeros, Nat.add_zero]

/-- **Zeros behind a packet** do not change its checksum. -/
theorem inCksum_append_zeros (n : ℕ) :
    inCksum order (buffer ++ List.replicate n 0) = inCksum order buffer := by
  simp only [inCksum, sumWords_eq, wordSum_append_zeros]

/-- One byte can be chosen in one way at most. -/
theorem eq_of_inCksum_append {front : List UInt8} {last last' : UInt8}
    (hlen : front.length < 65536) (h : inCksum order (front ++ [last]) = 0)
    (h' : inCksum order (front ++ [last']) = 0) : last = last' := by
  have hsplit : ∀ byte : UInt8, wordSum order (front ++ [byte]) = wordSum order front +
      wordSum order (List.replicate (front.length % 2) 0 ++ [byte]) := by
    intro byte
    have hcut := @wordSum_cut order (front ++ [byte]) front.length
    rwa [List.take_left, List.drop_left] at hcut
  have hle : ∀ byte, (front ++ [byte]).length ≤ 65536 := by
    intro byte
    rw [List.length_append, List.length_singleton]
    exact hlen
  obtain ⟨-, hdvd⟩ := (inCksum_eq_zero_iff (hle last)).mp h
  obtain ⟨-, hdvd'⟩ := (inCksum_eq_zero_iff (hle last')).mp h'
  rw [hsplit] at hdvd hdvd'
  have hlast := last.toNat_lt
  have hlast' := last'.toNat_lt
  -- the byte is the high or the low half of a word
  apply UInt8.toNat_inj.mp
  rcases Nat.mod_two_eq_zero_or_one front.length with hparity | hparity <;>
    rw [hparity] at hdvd hdvd' <;> cases order <;>
      simp [wordSum, words, ByteOrder.load] at hdvd hdvd' <;> omega

/-! ## Byte order -/

/-- The two bytes of a word, exchanged. -/
def byteSwap (word : ℕ) : ℕ := 256 * (word % 256) + word / 256

theorem byteSwap_modEq (word : ℕ) : byteSwap word ≡ 256 * word [MOD 65535] := by
  simp only [byteSwap, Nat.ModEq]
  omega

theorem residue_byteSwap {word : ℕ} (h : word ≤ 65535) :
    byteSwap word = residue 65535 (256 * word) := by
  have hle : byteSwap word ≤ 65535 := by
    rw [byteSwap]
    omega
  rw [← residue_of_le hle]
  refine residue_congr ?_ (byteSwap_modEq word)
  rw [byteSwap]
  omega

theorem load_big (first second : UInt8) :
    ByteOrder.big.load first second = byteSwap (ByteOrder.little.load first second) := by
  have := first.toNat_lt
  have := second.toNat_lt
  simp only [ByteOrder.load, byteSwap]
  omega

/-- The sums of the two byte orders differ by a factor of 256. -/
theorem wordSum_big_modEq (buffer : List UInt8) :
    (wordSum .big buffer = 0 ↔ 256 * wordSum .little buffer = 0) ∧
      wordSum .big buffer ≡ 256 * wordSum .little buffer [MOD 65535] := by
  induction buffer using words.induct with
  | case1 first second rest ih =>
      obtain ⟨hzero, hmod⟩ := ih
      have hload := byteSwap_modEq (ByteOrder.little.load first second)
      rw [← load_big] at hload
      rw [wordSum_cons_cons, wordSum_cons_cons, Nat.mul_add]
      refine ⟨?_, hload.add hmod⟩
      simp only [ByteOrder.load]
      omega
  | case2 last =>
      simp only [wordSum, words, List.sum_singleton, ByteOrder.load, Nat.ModEq]
      refine ⟨?_, rfl⟩
      omega
  | case3 => exact ⟨Iff.rfl, rfl⟩

theorem inCksum_little_eq (h : buffer.length ≤ 65536) :
    inCksum .little buffer = byteSwap (inCksum .big buffer) := by
  obtain ⟨hzero, hmod⟩ := wordSum_big_modEq buffer
  have hle := residue_le (by decide : 0 < 65535) (wordSum .little buffer)
  have hbig : residue 65535 (wordSum .big buffer) =
      byteSwap (residue 65535 (wordSum .little buffer)) := by
    rw [residue_byteSwap hle, residue_congr hzero hmod]
    refine residue_congr ?_ ((residue_modEq _).mul_left 256).symm
    simp [residue_eq_zero_iff]
  rw [inCksum_eq (wordSum_lt h), inCksum_eq (wordSum_lt h), hbig]
  simp only [byteSwap]
  omega

/-- A packet verifies on all hosts or on none. -/
theorem inCksum_eq_zero_congr (order order' : ByteOrder) (h : buffer.length ≤ 65536) :
    inCksum order buffer = 0 ↔ inCksum order' buffer = 0 := by
  have hswap : inCksum .little buffer = 0 ↔ inCksum .big buffer = 0 := by
    rw [inCksum_little_eq h, byteSwap]
    omega
  cases order <;> cases order' <;> first | rfl | exact hswap | exact hswap.symm

/-! ## Signed packets -/

theorem load_store {word : ℕ} (h : word < 65536) :
    ∃ first second, order.store word = [first, second] ∧ order.load first second = word := by
  cases order with
  | little =>
      refine ⟨_, _, rfl, ?_⟩
      simp only [ByteOrder.load, UInt8.toNat_ofNat']
      omega
  | big =>
      refine ⟨_, _, rfl, ?_⟩
      simp only [ByteOrder.load, UInt8.toNat_ofNat']
      omega

/-- **Signed packets verify.**  A checksum taken with zeros in its place and then stored there in
the order of the sender makes the packet verify for every receiver. -/
theorem inCksum_signed (writer reader : ByteOrder) {before after : List UInt8}
    (heven : before.length % 2 = 0) (h : before.length + 2 + after.length ≤ 65536) :
    inCksum reader (before ++ writer.store (inCksum writer (before ++ [0, 0] ++ after)) ++ after) =
      0 := by
  have hlen : (before ++ [0, 0] ++ after).length ≤ 65536 := by
    simp only [List.length_append, List.length_cons, List.length_nil]
    omega
  have hsplit : ∀ first second, wordSum writer (before ++ [first, second] ++ after) =
      wordSum writer before + (writer.load first second + wordSum writer after) := by
    intro first second
    rw [List.append_assoc, wordSum_append _ _ heven]
    rfl
  have hunsigned := hsplit 0 0
  rw [show writer.load 0 0 = 0 by cases writer <;> rfl, Nat.zero_add] at hunsigned
  obtain ⟨first, second, hstore, hload⟩ := @load_store writer _ (inCksum_lt writer
    (before ++ [0, 0] ++ after))
  have hlen' : (before ++ [first, second] ++ after).length ≤ 65536 := by simpa using hlen
  rw [hstore, inCksum_eq_zero_congr reader writer hlen', inCksum_eq_zero_iff hlen', hsplit, hload,
    inCksum_eq (wordSum_lt hlen), hunsigned, Nat.add_left_comm, Nat.add_comm]
  exact (residue_eq_self_iff (by decide)).mp (residue_add_complement (by decide) _)

/-- Two more bytes can be chosen so that the packet verifies. -/
theorem exists_inCksum_append (order : ByteOrder) {front : List UInt8}
    (heven : front.length % 2 = 0) (h : front.length + 2 ≤ 65536) :
    ∃ first second, inCksum order (front ++ [first, second]) = 0 := by
  obtain ⟨first, second, hstore, -⟩ := @load_store order _ (inCksum_lt order
    (front ++ [0, 0] ++ []))
  have hsigned := @inCksum_signed order order front [] heven h
  rw [hstore, List.append_nil] at hsigned
  exact ⟨first, second, hsigned⟩

theorem htons_zero : htons 0 = [0, 0] := rfl

theorem length_htons (n : ℕ) : (htons n).length = 2 := rfl

theorem inCksum_fillHeader (writer reader : ByteOrder) (opcode block : ℕ) {packet : List UInt8}
    (h : packet.length ≤ 65536) : inCksum reader (fillHeader writer opcode block packet) = 0 := by
  have hlen : (htons opcode).length + 2 + (htons block ++ mfData packet).length ≤ 65536 := by
    simp only [length_htons, mfData, List.length_append, List.length_drop]
    omega
  have hsigned := inCksum_signed writer reader (by rw [length_htons]) hlen
  simpa only [fillHeader, htons_zero, List.append_assoc] using hsigned

theorem inCksum_frqPacket (writer reader : ByteOrder) (name : FileName) :
    inCksum reader (frqPacket writer name) = 0 := by
  have hlen : (htons Opcode.frq).length + 2 + (name.chars ++ [0]).length ≤ 65536 := by
    have := name.fits
    simp only [length_htons, List.length_append, List.length_cons, List.length_nil]
    omega
  have hsigned := inCksum_signed writer reader (by rw [length_htons]) hlen
  simpa only [frqPacket, htons_zero, List.append_assoc] using hsigned

/-- **Byte order.**  The checksums of the two byte orders are the byte swaps of each other, and a
packet signed on a host of one order verifies on hosts of both. -/
theorem inCksum_byteOrder :
    (∀ buffer : List UInt8, buffer.length ≤ 65536 →
      inCksum .little buffer = byteSwap (inCksum .big buffer)) ∧
    ∀ (writer reader : ByteOrder) (opcode block : ℕ) (packet : List UInt8),
      packet.length ≤ 65536 → inCksum reader (fillHeader writer opcode block packet) = 0 :=
  ⟨fun _ h => inCksum_little_eq h,
    fun writer reader opcode block _ h => inCksum_fillHeader writer reader opcode block h⟩

theorem inCksum_byteOrder_lone :
    inCksum .little [1, 2, 3] = byteSwap (inCksum .big [1, 2, 3]) ∧
      inCksum .big (fillHeader .little Opcode.data 1 [0, 0, 0, 0, 0, 0, 7]) = 0 :=
  ⟨inCksum_byteOrder.1 [1, 2, 3] (by decide),
    inCksum_byteOrder.2 .little .big Opcode.data 1 [0, 0, 0, 0, 0, 0, 7] (by decide)⟩

end NetworkHomework.Ftp
