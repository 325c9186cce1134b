import ComputerNetworks.Transfer.Datagram
import Mathlib.Tactic.NormNum.Prime

/-!
# What the frame check detects

An error pattern flips the bits of a datagram where its own are set. The generator of
`CRC16` is divisible by `X + 1` and not by `X`, so odd numbers of errors and short bursts
are always seen; `X` has order 32767 modulo the generator, so two errors are missed just
when their distance is a multiple of that, which a frame of `bufLen` bytes has room for.
-/

namespace ComputerNetworks.Transfer

open Lib Polynomial

/-- A datagram with the bits of an error pattern flipped. -/
def corrupt (frame error : List UInt8) : List UInt8 := List.zipWith (· ^^^ ·) frame error

/-- A non-empty error pattern, confined to 16 consecutive bits of the covered bytes in the
order in which they are consumed. -/
structure Burst (error : List UInt8) : Prop where
  checksum : error.take 2 = [0, 0]
  flips : true ∈ bitsOf (error.drop 2)
  window : ∃ start, ∀ i, (bitsOf (error.drop 2))[i]? = some true → start ≤ i ∧ i < start + 16

/-- The error pattern flips just the `i`-th and the `j`-th bit of the covered bytes. -/
structure FlipsPair (i j : ℕ) (error : List UInt8) : Prop where
  checksum : error.take 2 = [0, 0]
  flips : ∀ k, (bitsOf (error.drop 2))[k]? = some true ↔ k = i ∨ k = j

/-! ### Error patterns -/

theorem byteBits_xor (a b : UInt8) :
    byteBits (a ^^^ b) = List.zipWith xor (byteBits a) (byteBits b) := by
  apply List.ext_getElem
  · simp
  · intro i _ _
    simp [byteBits]

theorem bitsOf_corrupt (frame error : List UInt8) (same : frame.length = error.length) :
    bitsOf (corrupt frame error) = List.zipWith xor (bitsOf frame) (bitsOf error) := by
  induction frame generalizing error with
  | nil =>
    obtain rfl := List.length_eq_zero_iff.mp same.symm
    rfl
  | cons a frame ih =>
    obtain ⟨e, error, rfl⟩ := List.exists_cons_of_length_eq_add_one same.symm
    have rest := ih error (by simpa using same)
    unfold corrupt at rest ⊢
    rw [List.zipWith_cons_cons, bitsOf_cons, bitsOf_cons, bitsOf_cons,
      List.zipWith_append (by simp), byteBits_xor, rest]

theorem append_extract {n : ℕ} (a b : BitVec n) :
    (a ++ b).extractLsb' n n = a ∧ (a ++ b).extractLsb' 0 n = b := by
  constructor
  · ext i hi
    simp [BitVec.getElem_append, hi]
  · ext i hi
    simp [BitVec.getLsbD_append, hi]

/-- The first two bytes of a datagram are its checksum. -/
theorem exists_htons {frame : List UInt8} (two : 2 ≤ frame.length) :
    ∃ sum covered, frame = htons sum ++ covered := by
  match frame, two with
  | a :: b :: covered, _ =>
    obtain ⟨high, low⟩ := append_extract a.toBitVec b.toBitVec
    refine ⟨a.toBitVec ++ b.toBitVec, covered, ?_⟩
    change _ = (⟨_⟩ :: ⟨_⟩ :: covered : List UInt8)
    rw [high, low]

theorem corrupt_htons (sum error : BitVec 16) (covered flips : List UInt8) :
    corrupt (htons sum ++ covered) (htons error ++ flips) =
      htons (sum ^^^ error) ++ corrupt covered flips := by
  simp [corrupt, htons, BitVec.extractLsb'_xor]

theorem reverse_xor (x y : BitVec 16) : (x ^^^ y).reverse = x.reverse ^^^ y.reverse := by
  ext i hi
  simp [BitVec.getElem_reverse]

/-- A frame that passes the test passes it again with errors exactly when the errors of
the checksum are the check of the others. -/
theorem crcTest_corrupt {sum error : BitVec 16} {covered flips : List UInt8}
    (same : covered.length = flips.length) (short : covered.length ≤ 65535)
    {memory : ℕ → UInt8} (memory' : ℕ → UInt8)
    (passes : crcTest (overlay (htons sum ++ covered) memory) (covered.length + 2) = true) :
    crcTest (overlay (corrupt (htons sum ++ covered) (htons error ++ flips)) memory')
        (covered.length + 2) = true ↔
      check crc16 (bitsOf flips) = error.reverse := by
  have length : (corrupt covered flips).length = covered.length := by simp [corrupt, same]
  rw [crcTest_overlay _ _ _ short] at passes
  rw [corrupt_htons, ← length, crcTest_overlay _ _ _ (by omega), bitsOf_corrupt _ _ same,
    check_xor (by decide) _ _ (by simp [same]), reverse_xor, ← passes,
    BitVec.xor_right_inj]
  constructor
  · intro same
    rw [same, BitVec.reverse_reverse_eq]
  · intro same
    rw [same, BitVec.reverse_reverse_eq]

/-! ### Parity and bursts -/

theorem generator_eval_one : (generator crc16).eval 1 = 0 := by
  rw [generator_crc16]
  simp
  decide

theorem generator_coprime : IsCoprime (generator crc16) X := by
  have two : (2 : (ZMod 2)[X]) = 0 := CharTwo.two_eq_zero
  refine ⟨1, X ^ 15 + X ^ 14 + X, ?_⟩
  rw [generator_crc16]
  linear_combination (X ^ 16 + X ^ 15 + X ^ 2) * two

/-- The bits of a reversed checksum are those of its bytes, the second before the first. -/
theorem registerBits_reverse (x : BitVec 16) :
    registerBits x.reverse =
      byteBits ⟨x.extractLsb' 0 8⟩ ++ byteBits ⟨x.extractLsb' 8 8⟩ := by
  simp [registerBits, byteBits, List.range_succ, BitVec.getMsbD_reverse]

/-- A checksum without errors. -/
theorem eq_zero_of_take_htons {x : BitVec 16} {back : List UInt8}
    (clear : (htons x ++ back).take 2 = [0, 0]) : x = 0 := by
  obtain ⟨high, low⟩ : (⟨x.extractLsb' 8 8⟩ : UInt8) = 0 ∧ (⟨x.extractLsb' 0 8⟩ : UInt8) = 0 := by
    simpa [htons] using clear
  have high' : x.extractLsb' 8 8 = 0 := congrArg UInt8.toBitVec high
  have low' : x.extractLsb' 0 8 = 0 := congrArg UInt8.toBitVec low
  rw [← extract_append (n := 8) x, high', low']
  rfl

/-- Odd numbers of errors and bursts of at most 16 bits make a frame fail the test. -/
theorem corrupted_frame_fails (frame error : List UInt8) (memory memory' : ℕ → UInt8)
    (two : 2 ≤ frame.length) (short : frame.length ≤ 65537) (same : error.length = frame.length)
    (passes : crcTest (overlay frame memory) frame.length = true)
    (seen : Odd ((bitsOf error).count true) ∨ Burst error) :
    crcTest (overlay (corrupt frame error) memory') frame.length = false := by
  obtain ⟨sum, covered, rfl⟩ := exists_htons two
  obtain ⟨flip, flips, rfl⟩ := exists_htons (show 2 ≤ error.length by omega)
  have same' : covered.length = flips.length := by simpa using same.symm
  have length : (htons sum ++ covered).length = covered.length + 2 := by simp; omega
  rw [length] at passes short ⊢
  rw [← Bool.not_eq_true, crcTest_corrupt same' (by omega) memory' passes]
  rcases seen with odd | burst
  · apply check_ne_of_odd (by decide) generator_eval_one
    have count : (bitsOf flips ++ registerBits flip.reverse).count true =
        (bitsOf (htons flip ++ flips)).count true := by
      rw [registerBits_reverse]
      simp only [htons, List.cons_append, List.nil_append, bitsOf_cons, List.count_append]
      omega
    rwa [count]
  · obtain ⟨start, window⟩ := burst.window
    rw [eq_zero_of_take_htons burst.checksum, show (0 : BitVec 16).reverse = 0#16 by decide]
    exact check_window (by decide) generator_coprime burst.flips le_rfl window

theorem corrupted_frame_fails_zeros :
    crcTest (overlay (corrupt [0, 0, 0] [0, 0, 1]) fun _ => 0) 3 = false :=
  corrupted_frame_fails [0, 0, 0] [0, 0, 1] (fun _ => 0) (fun _ => 0) (by decide) (by decide) rfl
    ((crcTest_overlay 0 [0] (fun _ => 0) (by decide)).mpr (by decide +kernel))
    (.inl (by decide))

/-! ### Double errors -/

/-- The order of `X` modulo the generator. -/
theorem orderOf_root : orderOf (AdjoinRoot.root (generator crc16)) = 32767 := by
  have power (digits : List Bool) := root_pow_eq_one_iff (g := crc16) (by decide) digits
  apply orderOf_eq_of_pow_and_pow_div_prime (by decide)
  · exact (power (List.replicate 15 true)).mpr (by decide +kernel)
  · intro p prime divides
    have factors : p = 7 ∨ p = 31 ∨ p = 151 := by
      rw [show 32767 = 7 * (31 * 151) by decide, prime.dvd_mul, prime.dvd_mul,
        Nat.prime_dvd_prime_iff_eq prime (by norm_num), Nat.prime_dvd_prime_iff_eq prime (by norm_num),
        Nat.prime_dvd_prime_iff_eq prime (by norm_num)] at divides
      exact divides
    -- the exponents 4681, 1057 and 217 in binary
    rcases factors with rfl | rfl | rfl
    · exact (power [true, false, false, true, false, false, true, false, false, true, false, false,
        true]).not.mpr (by decide +kernel)
    · exact (power [true, false, false, false, false, true, false, false, false, false,
        true]).not.mpr (by decide +kernel)
    · exact (power [true, false, false, true, true, false, true, true]).not.mpr (by decide +kernel)

/-- A datagram of `sendfile` with two errors `d + 1` bits apart passes the test exactly when
`d + 1` is a multiple of the order. -/
theorem crcTest_pair (frame : Frame) (memory stale : ℕ → UInt8) {flips : List UInt8}
    (short : frame.payload.length ≤ bufLen) (same : flips.length = frame.payload.length + 10)
    {m d n : ℕ} (pair : bitsOf flips = List.replicate m false ++
      (true :: List.replicate d false ++ [true]) ++ List.replicate n false) :
    crcTest (overlay (corrupt (frame.encode memory) (0 :: 0 :: flips)) stale)
        (frame.encode memory).length = true ↔ 32767 ∣ d + 1 := by
  dsimp only [bufLen] at short
  have passes := frame.crcTest_encode memory stale (by omega)
  rw [Frame.length_encode, show frame.payload.length + 12 = frame.body.length + 2 by simp] at passes ⊢
  unfold Frame.encode at passes ⊢
  rw [show (0 :: 0 :: flips : List UInt8) = htons 0 ++ flips from rfl,
    crcTest_corrupt (by rw [Frame.length_body, same]) (by rw [Frame.length_body]; omega) stale passes,
    show (0 : BitVec 16).reverse = 0#16 by decide, pair, check_pair (by decide) generator_coprime,
    orderOf_root]

theorem getElem?_pair (m d n k : ℕ) :
    (List.replicate m false ++ (true :: List.replicate d false ++ [true]) ++
        List.replicate n false)[k]? = some true ↔ k = m ∨ k = m + d + 1 := by
  grind

/-- The bits of an error pattern that flips two of them. -/
theorem FlipsPair.bitsOf_eq {i j : ℕ} {error : List UInt8} (apart : i < j)
    (pair : FlipsPair i j error) :
    ∃ n, bitsOf (error.drop 2) = List.replicate i false ++
      (true :: List.replicate (j - i - 1) false ++ [true]) ++ List.replicate n false := by
  have last : j < (bitsOf (error.drop 2)).length :=
    (List.getElem?_eq_some_iff.mp ((pair.flips j).mpr (.inr rfl))).1
  refine ⟨(bitsOf (error.drop 2)).length - j - 1, ?_⟩
  apply List.ext_getElem
  · simp only [List.length_append, List.length_cons, List.length_replicate, List.length_nil]
    omega
  · intro k hk hk'
    have bit := pair.flips k
    have bit' := getElem?_pair i (j - i - 1) ((bitsOf (error.drop 2)).length - j - 1) k
    rw [List.getElem?_eq_getElem hk, Option.some.injEq] at bit
    rw [List.getElem?_eq_getElem hk', Option.some.injEq, show i + (j - i - 1) + 1 = j by omega] at bit'
    rw [Bool.eq_iff_iff, bit, bit']

theorem FlipsPair.of_bitsOf {flips : List UInt8} {m d n : ℕ}
    (pair : bitsOf flips = List.replicate m false ++
      (true :: List.replicate d false ++ [true]) ++ List.replicate n false) :
    FlipsPair m (m + d + 1) (0 :: 0 :: flips) := by
  refine ⟨rfl, fun k => ?_⟩
  rw [List.drop_succ_cons, List.drop_succ_cons, List.drop_zero, pair]
  exact getElem?_pair m d n k

/-- A datagram that fails the test changes nothing but the receive buffer. -/
theorem Session.step_failed {s : Session} {p : Poll} {bytes : List UInt8}
    (running : s.fault = false) (phase : s.recv.phase = .data) (datagram : p.datagram = some bytes)
    (two : 2 ≤ bytes.length) (short : bytes.length ≤ bufLen + 12 + 4)
    (fails : crcTest (overlay bytes s.buf) bytes.length = false) :
    s.step p = some ⟨overlay bytes s.buf, (s.recv.iteration none p.now).1, false⟩ := by
  have stored : s.stored p = bytes := by
    rw [Session.stored, datagram, Option.getD_some, request, if_neg (by rw [phase]; decide)]
    exact List.take_of_length_le short
  have recvlen : s.recvlen p = bytes.length := by rw [Session.recvlen, stored]
  have filled : s.filled p = overlay bytes s.buf := by rw [Session.filled, stored]
  simp only [step, running, phase, Bool.false_eq_true, if_false, recvlen,
    show 0 < bytes.length by omega, if_true, dataDatagram, filled, overread_eq_false two short, fails]
  rfl

/-- Two errors in the covered bytes of a data frame make it fail the test, and the receiver
does nothing about it, unless their distance is a multiple of 32767; then it passes. -/
theorem emitted_pair_fails_iff (frame : Frame) (error : List UInt8) (memory stale : ℕ → UInt8)
    {i j : ℕ} (short : frame.payload.length ≤ bufLen)
    (same : error.length = (frame.encode memory).length) (apart : i < j)
    (flips : FlipsPair i j error) :
    (crcTest (overlay (corrupt (frame.encode memory) error) stale)
        (frame.encode memory).length = false ↔ ¬ 32767 ∣ j - i) ∧
      (¬ 32767 ∣ j - i → ∀ (s : Session) (p : Poll), s.fault = false → s.recv.phase = .data →
        p.datagram = some (corrupt (frame.encode memory) error) →
          s.step p = some ⟨overlay (corrupt (frame.encode memory) error) s.buf,
            (s.recv.iteration none p.now).1, false⟩) := by
  obtain ⟨n, bits⟩ := flips.bitsOf_eq apart
  have length := frame.length_encode memory
  -- the two bytes of the checksum carry no error
  have split : error = 0 :: 0 :: error.drop 2 := by
    conv_lhs => rw [← List.take_append_drop 2 error, flips.checksum]
    rfl
  have test : ∀ buf, crcTest (overlay (corrupt (frame.encode memory) error) buf)
      (frame.encode memory).length = false ↔ ¬ 32767 ∣ j - i := by
    intro buf
    rw [← Bool.not_eq_true, split, crcTest_pair frame memory buf short
      (by rw [List.length_drop, same, length]; omega) bits, show j - i - 1 + 1 = j - i by omega]
  refine ⟨test stale, fun other s p running phase datagram => ?_⟩
  have length' : (corrupt (frame.encode memory) error).length = (frame.encode memory).length := by
    simp [corrupt, same]
  dsimp only [bufLen] at short
  apply Session.step_failed running phase datagram
  · omega
  · dsimp only [bufLen]
    omega
  · rw [length']
    exact (test s.buf).mpr other

/-- Two errors 51 bits apart in a frame of three bytes. -/
theorem emitted_pair_fails_iff_apart :
    crcTest (overlay (corrupt (Frame.encode ⟨0, 4, 1, [104, 105, 33]⟩ fun _ => 0)
        [0, 0, 0, 8, 0, 0, 0, 0, 0, 64, 0, 0, 0, 0, 0]) fun _ => 0)
      (Frame.encode ⟨0, 4, 1, [104, 105, 33]⟩ fun _ => 0).length = false := by
  have pair : FlipsPair 11 62 [0, 0, 0, 8, 0, 0, 0, 0, 0, 64, 0, 0, 0, 0, 0] :=
    FlipsPair.of_bitsOf (m := 11) (d := 50) (n := 41) (by decide)
  exact (emitted_pair_fails_iff ⟨0, 4, 1, [104, 105, 33]⟩ _ (fun _ => 0) (fun _ => 0) (by decide)
    (by rw [Frame.length_encode]; rfl) (by decide) pair).1.mpr (by decide)

theorem bitsOf_replicate_zero (n : ℕ) :
    bitsOf (List.replicate n 0) = List.replicate (8 * n) false := by
  induction n with
  | zero => rfl
  | succ n ih =>
    rw [List.replicate_succ, bitsOf_cons, ih, Nat.mul_succ, Nat.add_comm,
      ← List.replicate_append_replicate]
    rfl

/-- Two errors 32767 bits apart in a frame of `bufLen` zeros are missed. -/
theorem not_emitted_pair_fails :
    ¬ ∀ (frame : Frame) (error : List UInt8) (memory stale : ℕ → UInt8) (i j : ℕ),
      frame.payload.length ≤ bufLen → error.length = (frame.encode memory).length → i < j →
        FlipsPair i j error →
          crcTest (overlay (corrupt (frame.encode memory) error) stale)
            (frame.encode memory).length = false := by
  intro claim
  have bits : bitsOf (1 :: List.replicate 4094 0 ++ 128 :: List.replicate 28682 0) =
      List.replicate 0 false ++ (true :: List.replicate 32766 false ++ [true]) ++
        List.replicate 229456 false := by
    have first : byteBits 1 = true :: List.replicate 7 false := by decide
    have last : byteBits 128 = List.replicate 7 false ++ [true] := by decide
    rw [show 32766 = 7 + (8 * 4094 + 7) by decide, ← List.replicate_append_replicate,
      ← List.replicate_append_replicate, bitsOf_append, bitsOf_cons, bitsOf_cons,
      bitsOf_replicate_zero, bitsOf_replicate_zero, first, last]
    simp only [List.cons_append, List.append_assoc, List.replicate_zero, List.nil_append]
  have short : (List.replicate bufLen (0 : UInt8)).length ≤ bufLen := by
    rw [List.length_replicate]
  have length : (1 :: List.replicate 4094 0 ++ 128 :: List.replicate 28682 0 : List UInt8).length =
      bufLen + 10 := by
    rw [List.length_append, List.length_cons, List.length_cons, List.length_replicate,
      List.length_replicate]
  have fails := claim ⟨0, 2, 1, List.replicate bufLen 0⟩
    (0 :: 0 :: (1 :: List.replicate 4094 0 ++ 128 :: List.replicate 28682 0)) (fun _ => 0)
    (fun _ => 0) 0 32767 short
    (by rw [Frame.length_encode, List.length_cons, List.length_cons, length, List.length_replicate])
    (by decide) (FlipsPair.of_bitsOf bits)
  rw [← Bool.not_eq_true, crcTest_pair _ _ _ short (by rw [length, List.length_replicate]) bits] at fails
  exact fails (dvd_refl _)

end ComputerNetworks.Transfer
