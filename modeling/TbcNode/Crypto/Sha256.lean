import TbcNode.Encoding.Bits

/-! # SHA-256 (`crypto/sha256.cpp`)

`CSHA256` keeps the chaining words, a 64-byte buffer and a byte count; the compression `Transform`
is a parameter. Whatever strings `Write` is given, `Finalize` outputs what FIPS 180-4 computes on
their concatenation.
-/

namespace TbcNode.Crypto

open TbcNode.Encoding

def sha256Initialize : Vector UInt32 8 :=
  #v[0x6a09e667, 0xbb67ae85, 0x3c6ef372, 0xa54ff53a, 0x510e527f, 0x9b05688c, 0x1f83d9ab,
    0x5be0cd19]

/-- The eight words written big-endian, as `Finalize` outputs them. -/
def digest (s : Vector UInt32 8) : List UInt8 :=
  s.toList.flatMap fun w => writeBE 4 w.toNat

section

variable (compress : Vector UInt32 8 → List UInt8 → Vector UInt32 8)

/-- `Transform(s, chunk, blocks)`: the compression of `blocks` chunks of 64 bytes, one after
another. -/
def transform : Vector UInt32 8 → List UInt8 → Nat → Vector UInt32 8
  | s, _, 0 => s
  | s, chunk, blocks + 1 => transform (compress s (chunk.take 64)) (chunk.drop 64) blocks

def memcpy (buf : List UInt8) (off : Nat) (src : List UInt8) : List UInt8 :=
  buf.take off ++ src ++ buf.drop (off + src.length)

/-- `CSHA256`: the words `s`, the buffer `buf` and the byte count `bytes`, a `uint64_t`. -/
structure CSHA256 where
  s : Vector UInt32 8
  buf : List UInt8
  bytes : Nat

namespace CSHA256

/-- The first block of `Write`: a partial block in the buffer is filled and compressed when the
input completes it. Returns the state, the rest of the input and the buffer position. -/
def fillBuffer (h : CSHA256) (data : List UInt8) : CSHA256 × List UInt8 × Nat :=
  let bufsize := h.bytes % 64
  if bufsize ≠ 0 ∧ bufsize + data.length ≥ 64 then
    let buf := memcpy h.buf bufsize (data.take (64 - bufsize))
    (⟨transform compress h.s buf 1, buf, (h.bytes + (64 - bufsize)) % 2 ^ 64⟩,
      data.drop (64 - bufsize), 0)
  else (h, data, bufsize)

/-- The second block of `Write`: the whole blocks of the input are compressed from the input. -/
def compressBlocks (h : CSHA256) (data : List UInt8) : CSHA256 × List UInt8 :=
  if data.length ≥ 64 then
    let blocks := data.length / 64
    (⟨transform compress h.s data blocks, h.buf, (h.bytes + 64 * blocks) % 2 ^ 64⟩,
      data.drop (64 * blocks))
  else (h, data)

/-- The third block of `Write`: what remains goes to the buffer at `bufsize`. -/
def stashTail (h : CSHA256) (bufsize : Nat) (data : List UInt8) : CSHA256 :=
  if data.length > 0 then ⟨h.s, memcpy h.buf bufsize data, (h.bytes + data.length) % 2 ^ 64⟩
  else h

def write (h : CSHA256) (data : List UInt8) : CSHA256 :=
  let f := fillBuffer compress h data
  let b := compressBlocks compress f.1 f.2.1
  stashTail b.1 f.2.2 b.2

/-- The array `pad` of `Finalize`: `0x80` and 63 zeros. -/
def pad : List UInt8 := 0x80 :: List.replicate 63 0

def finalize (h : CSHA256) : List UInt8 :=
  let sizedesc := writeBE 8 ((h.bytes <<< 3) % 2 ^ 64)
  let h := write compress h (pad.take (1 + (119 - h.bytes % 64) % 64))
  let h := write compress h sizedesc
  digest h.s

end CSHA256

/-- The message padded as FIPS 180-4 prescribes: a one bit, zeros up to a multiple of 64 bytes
less 8, and the length in bits as a 64-bit big-endian number. -/
def sha256Padding (m : List UInt8) : List UInt8 :=
  m ++ 0x80 :: List.replicate ((64 - (m.length + 9) % 64) % 64) 0 ++
    writeBE 8 (8 * m.length % 2 ^ 64)

/-- SHA-256 of FIPS 180-4: the blocks of the padded message compressed one after another from the
initial words. -/
def sha256 (m : List UInt8) : List UInt8 :=
  digest (transform compress sha256Initialize (sha256Padding m) ((sha256Padding m).length / 64))

/-! ## Compressing blocks -/

theorem transform_add (a b : Nat) :
    ∀ s chunk, transform compress s chunk (a + b) =
      transform compress (transform compress s chunk a) (chunk.drop (64 * a)) b := by
  induction a with
  | zero => intro s chunk; simp [transform]
  | succ a ih =>
    intro s chunk
    rw [Nat.add_right_comm, transform, transform, ih, List.drop_drop]
    congr 2
    omega

theorem transform_append_of_le (blocks : Nat) :
    ∀ s x y, 64 * blocks ≤ x.length → transform compress s (x ++ y) blocks = transform compress s x blocks := by
  induction blocks with
  | zero => intro s x y _; rfl
  | succ blocks ih =>
    intro s x y h
    rw [transform, transform, List.take_append_of_le_length (by omega),
      List.drop_append_of_le_length (by omega), ih _ _ _ (by simp; omega)]

theorem transform_take (blocks : Nat) :
    ∀ s chunk, transform compress s chunk blocks =
      transform compress s (chunk.take (64 * blocks)) blocks := by
  induction blocks with
  | zero => intro s chunk; rfl
  | succ blocks ih =>
    intro s chunk
    rw [transform, transform, ih _ (chunk.drop 64), ih _ ((chunk.take (64 * (blocks + 1))).drop 64),
      List.take_take, List.drop_take, List.take_take]
    congr 2
    omega

theorem transform_one (s : Vector UInt32 8) (chunk : List UInt8) :
    transform compress s chunk 1 = compress s (chunk.take 64) := rfl

/-! ## The invariant of `Write` -/

namespace CSHA256

/-- `h` has taken in the message `m`: its words are the compression of the whole blocks of `m`,
its buffer starts with the bytes of `m` after them, and `bytes` is `|m|` modulo `2 ^ 64`. -/
structure Invariant (m : List UInt8) (h : CSHA256) : Prop where
  bytes_eq : h.bytes = m.length % 2 ^ 64
  buf_length : h.buf.length = 64
  s_eq : h.s = transform compress sha256Initialize m (m.length / 64)
  buf_take : h.buf.take (m.length % 64) = m.drop (64 * (m.length / 64))

variable {compress}

theorem Invariant.bufsize {m : List UInt8} {h : CSHA256} (hi : Invariant compress m h) :
    h.bytes % 64 = m.length % 64 := by
  rw [hi.bytes_eq]
  omega

theorem invariant_init {buf : List UInt8} (hbuf : buf.length = 64) :
    Invariant compress [] ⟨sha256Initialize, buf, 0⟩ :=
  ⟨rfl, hbuf, rfl, by simp⟩

theorem length_memcpy {buf src : List UInt8} {off : Nat} (h : off + src.length ≤ buf.length) :
    (memcpy buf off src).length = buf.length := by
  rw [memcpy, List.length_append, List.length_append, List.length_take, List.length_drop]
  omega

theorem fillBuffer_of_fill {h : CSHA256} {data : List UInt8}
    (hfill : h.bytes % 64 ≠ 0 ∧ h.bytes % 64 + data.length ≥ 64) :
    fillBuffer compress h data =
      (⟨transform compress h.s (memcpy h.buf (h.bytes % 64) (data.take (64 - h.bytes % 64))) 1,
        memcpy h.buf (h.bytes % 64) (data.take (64 - h.bytes % 64)),
        (h.bytes + (64 - h.bytes % 64)) % 2 ^ 64⟩, data.drop (64 - h.bytes % 64), 0) := by
  unfold fillBuffer
  dsimp only
  rw [if_pos hfill]

theorem fillBuffer_of_not {h : CSHA256} {data : List UInt8}
    (hfill : ¬ (h.bytes % 64 ≠ 0 ∧ h.bytes % 64 + data.length ≥ 64)) :
    fillBuffer compress h data = (h, data, h.bytes % 64) := by
  unfold fillBuffer
  dsimp only
  rw [if_neg hfill]

theorem fillBuffer_spec {m : List UInt8} {h : CSHA256} (hi : Invariant compress m h)
    (data : List UInt8) :
    ∃ c, data = c ++ (fillBuffer compress h data).2.1 ∧
      Invariant compress (m ++ c) (fillBuffer compress h data).1 ∧
      (fillBuffer compress h data).2.2 = (m ++ c).length % 64 ∧
      ((fillBuffer compress h data).2.2 = 0 ∨
        (fillBuffer compress h data).2.2 + (fillBuffer compress h data).2.1.length < 64) := by
  have hbs := hi.bufsize
  by_cases hfill : h.bytes % 64 ≠ 0 ∧ h.bytes % 64 + data.length ≥ 64
  · rw [fillBuffer_of_fill hfill]
    have hlen : (m ++ data.take (64 - h.bytes % 64)).length = 64 * (m.length / 64 + 1) := by
      rw [List.length_append, List.length_take]
      omega
    refine ⟨data.take (64 - h.bytes % 64), (List.take_append_drop _ _).symm, ?_,
      by rw [hlen, Nat.mul_mod_right], Or.inl rfl⟩
    have hbuf : memcpy h.buf (h.bytes % 64) (data.take (64 - h.bytes % 64)) =
        m.drop (64 * (m.length / 64)) ++ data.take (64 - h.bytes % 64) := by
      have hdrop : h.buf.drop (h.bytes % 64 + (data.take (64 - h.bytes % 64)).length) = [] :=
        List.drop_eq_nil_of_le (by rw [List.length_take, hi.buf_length]; omega)
      rw [memcpy, hdrop, List.append_nil, hbs, hi.buf_take]
    refine ⟨?_, ?_, ?_, ?_⟩
    · show (h.bytes + (64 - h.bytes % 64)) % 2 ^ 64 = _
      rw [hlen, hi.bytes_eq]
      omega
    · show (memcpy _ _ _).length = 64
      rw [length_memcpy (by rw [List.length_take, hi.buf_length]; omega), hi.buf_length]
    · have hq : 64 * (m.length / 64 + 1) / 64 = m.length / 64 + 1 := by omega
      have hm : 64 * (m.length / 64) ≤ m.length := Nat.mul_div_le _ _
      show transform compress h.s _ 1 = _
      rw [hbuf, hi.s_eq, hlen, hq, transform_add, transform_append_of_le compress _ _ _ _ hm,
        List.drop_append_of_le_length hm]
    · rw [hlen, Nat.mul_mod_right, List.take_zero, List.drop_eq_nil_of_le (by omega)]
  · rw [fillBuffer_of_not hfill]
    refine ⟨[], rfl, by simpa using hi, by simpa using hbs, ?_⟩
    dsimp only
    omega

theorem compressBlocks_of_ge {h : CSHA256} {data : List UInt8} (hd : data.length ≥ 64) :
    compressBlocks compress h data =
      (⟨transform compress h.s data (data.length / 64), h.buf,
        (h.bytes + 64 * (data.length / 64)) % 2 ^ 64⟩, data.drop (64 * (data.length / 64))) := by
  unfold compressBlocks
  rw [if_pos hd]

theorem compressBlocks_of_lt {h : CSHA256} {data : List UInt8} (hd : ¬ data.length ≥ 64) :
    compressBlocks compress h data = (h, data) := by
  unfold compressBlocks
  rw [if_neg hd]

theorem compressBlocks_spec {m : List UInt8} {h : CSHA256} (hi : Invariant compress m h)
    {bufsize : Nat} (hb : bufsize = m.length % 64) (data : List UInt8)
    (hr : bufsize = 0 ∨ bufsize + data.length < 64) :
    ∃ c, data = c ++ (compressBlocks compress h data).2 ∧
      Invariant compress (m ++ c) (compressBlocks compress h data).1 ∧
      bufsize + (compressBlocks compress h data).2.length < 64 ∧
      bufsize = (m ++ c).length % 64 := by
  by_cases hd : data.length ≥ 64
  · have h0 : m.length % 64 = 0 := by omega
    have hm : 64 * (m.length / 64) = m.length := by omega
    have hc : (data.take (64 * (data.length / 64))).length = 64 * (data.length / 64) := by
      rw [List.length_take]
      omega
    have hlen : (m ++ data.take (64 * (data.length / 64))).length =
        64 * (m.length / 64 + data.length / 64) := by
      rw [List.length_append, hc]
      omega
    rw [compressBlocks_of_ge hd]
    refine ⟨data.take (64 * (data.length / 64)), (List.take_append_drop _ _).symm,
      ⟨?_, hi.buf_length, ?_, ?_⟩, ?_, ?_⟩
    · show (h.bytes + _) % 2 ^ 64 = _
      rw [hlen, hi.bytes_eq]
      omega
    · show transform compress h.s data _ = _
      rw [hlen, Nat.mul_div_cancel_left _ (by omega), transform_add, hi.s_eq,
        transform_append_of_le compress _ _ _ _ (by omega), List.drop_append_of_le_length (by omega),
        hm, List.drop_length, List.nil_append, transform_take compress (data.length / 64) _ data]
    · rw [hlen, Nat.mul_mod_right, List.take_zero, List.drop_eq_nil_of_le (by omega)]
    · rw [List.length_drop]
      omega
    · rw [hlen, Nat.mul_mod_right]
      omega
  · rw [compressBlocks_of_lt hd]
    refine ⟨[], rfl, by simpa using hi, ?_, by simpa using hb⟩
    show bufsize + data.length < 64
    omega

theorem stashTail_spec {m : List UInt8} {h : CSHA256} (hi : Invariant compress m h)
    {bufsize : Nat} (hb : bufsize = m.length % 64) {data : List UInt8}
    (hr : bufsize + data.length < 64) : Invariant compress (m ++ data) (stashTail h bufsize data) := by
  unfold stashTail
  split_ifs with hd
  · have hq : (m.length + data.length) / 64 = m.length / 64 := by omega
    have hm : 64 * (m.length / 64) ≤ m.length := Nat.mul_div_le _ _
    refine ⟨?_, ?_, ?_, ?_⟩
    · show (h.bytes + data.length) % 2 ^ 64 = _
      rw [List.length_append, hi.bytes_eq]
      omega
    · show (memcpy _ _ _).length = 64
      rw [length_memcpy (by rw [hi.buf_length]; omega), hi.buf_length]
    · show h.s = _
      rw [List.length_append, hq, transform_append_of_le compress _ _ _ _ hm, hi.s_eq]
    · show (memcpy h.buf bufsize data).take ((m ++ data).length % 64) =
        (m ++ data).drop (64 * ((m ++ data).length / 64))
      have hl : (h.buf.take bufsize ++ data).length = (m ++ data).length % 64 := by
        rw [List.length_append, List.length_take, hi.buf_length, List.length_append]
        omega
      rw [memcpy, List.take_left' hl, List.length_append, hq, List.drop_append_of_le_length hm, hb,
        hi.buf_take]
  · obtain rfl : data = [] := List.eq_nil_of_length_eq_zero (by omega)
    simpa using hi

theorem write_spec {m : List UInt8} {h : CSHA256} (hi : Invariant compress m h)
    (data : List UInt8) : Invariant compress (m ++ data) (write compress h data) := by
  obtain ⟨c₁, hd₁, hi₁, hb₁, hr₁⟩ := fillBuffer_spec hi data
  obtain ⟨c₂, hd₂, hi₂, hr₂, hb₂⟩ := compressBlocks_spec hi₁ hb₁ _ hr₁
  have h₃ := stashTail_spec hi₂ hb₂ hr₂
  rw [List.append_assoc, List.append_assoc, ← hd₂, ← hd₁] at h₃
  exact h₃

theorem foldl_write_spec :
    ∀ (ws : List (List UInt8)) {m : List UInt8} {h : CSHA256}, Invariant compress m h →
      Invariant compress (m ++ ws.flatten) (ws.foldl (write compress) h) := by
  intro ws
  induction ws with
  | nil => intro m h hi; simpa using hi
  | cons w ws ih =>
    intro m h hi
    rw [List.foldl_cons, List.flatten_cons, ← List.append_assoc]
    exact ih (write_spec hi w)

theorem take_pad {n : Nat} (hn : 1 ≤ n) (hn' : n ≤ 64) :
    pad.take n = 0x80 :: List.replicate (n - 1) 0 := by
  obtain ⟨k, rfl⟩ : ∃ k, n = k + 1 := ⟨n - 1, by omega⟩
  rw [pad, List.take_succ_cons, List.take_replicate, Nat.add_sub_cancel, Nat.min_eq_left (by omega)]

theorem finalize_spec {m : List UInt8} {h : CSHA256} (hi : Invariant compress m h) :
    finalize compress h = sha256 compress m := by
  have hpad : pad.take (1 + (119 - h.bytes % 64) % 64) =
      0x80 :: List.replicate ((64 - (m.length + 9) % 64) % 64) 0 := by
    rw [take_pad (by omega) (by omega), hi.bufsize]
    congr 2
    omega
  have hsize : (h.bytes <<< 3) % 2 ^ 64 = 8 * m.length % 2 ^ 64 := by
    rw [Nat.shiftLeft_eq, hi.bytes_eq]
    omega
  have hi' := write_spec (write_spec hi (pad.take (1 + (119 - h.bytes % 64) % 64)))
    (writeBE 8 ((h.bytes <<< 3) % 2 ^ 64))
  rw [hpad, hsize, List.append_assoc] at hi'
  unfold finalize
  dsimp only
  rw [hpad, hsize, hi'.s_eq, sha256, sha256Padding]
  simp only [List.append_assoc, List.cons_append]

end CSHA256

/-- Streaming SHA-256 is SHA-256 of the concatenation, from any initial contents of the buffer. -/
theorem streaming_sha256 (buf : List UInt8) (hbuf : buf.length = 64) (ws : List (List UInt8)) :
    CSHA256.finalize compress (ws.foldl (CSHA256.write compress) ⟨sha256Initialize, buf, 0⟩) =
      sha256 compress ws.flatten := by
  have hi := CSHA256.foldl_write_spec ws (@CSHA256.invariant_init compress buf hbuf)
  rw [List.nil_append] at hi
  exact CSHA256.finalize_spec hi

end

theorem streaming_sha256_sample :
    (List.replicate 64 (0 : UInt8)).length = 64 ∧
      CSHA256.finalize (fun s _ => s)
          ([[1, 2, 3], [4]].foldl (CSHA256.write fun s _ => s)
            ⟨sha256Initialize, List.replicate 64 0, 0⟩) =
        sha256 (fun s _ => s) [[1, 2, 3], [4]].flatten :=
  ⟨by simp, streaming_sha256 (fun s _ => s) _ (by simp) _⟩

end TbcNode.Crypto
