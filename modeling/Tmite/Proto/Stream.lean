import Mathlib.Data.List.Infix
import Tmite.Proto.Frame

namespace Tmite.Proto

/-!
# Reading frames (`parse_frame` and `read_frame`)

Two decoders of one format: `parseFrame` takes a whole buffer, `readRaw`, the inner `read` of
`read_frame`, takes the bytes it needs from a stream.  A stream is the bytes that still arrive
and what follows them (`RecvStream`); the texts of transport errors are the transport's, and
that of a stream that ends inside a frame is a parameter, of the number of bytes read.

Both decoders invert `frameBytes` exactly (`parseFrame_iff`, `readRaw_iff`), so frames put one
after the other on a stream are read back one by one, and what follows them is left alone.
-/

/-! ### Big-endian lengths -/

/-- `u32::from_be_bytes`. -/
def fromBeBytes (a b c d : UInt8) : ℕ :=
  a.toNat * 2 ^ 24 + b.toNat * 2 ^ 16 + c.toNat * 2 ^ 8 + d.toNat

/-- A 32-bit length is read back. -/
theorem fromBeBytes_ofNat {n : ℕ} (h : n < 2 ^ 32) :
    fromBeBytes (UInt8.ofNat (n / 2 ^ 24)) (UInt8.ofNat (n / 2 ^ 16)) (UInt8.ofNat (n / 2 ^ 8))
      (UInt8.ofNat n) = n := by
  simp only [fromBeBytes, UInt8.toNat_ofNat']
  omega

/-- Four bytes are the length they announce. -/
theorem toBeBytes_fromBeBytes (a b c d : UInt8) :
    toBeBytes (fromBeBytes a b c d) = [a, b, c, d] := by
  have ha := a.toNat_lt
  have hb := b.toNat_lt
  have hc := c.toNat_lt
  have hd := d.toNat_lt
  have hbyte : ∀ (n : ℕ) (x : UInt8), n % 2 ^ 8 = x.toNat → UInt8.ofNat n = x := by
    intro n x hx
    apply UInt8.toNat_inj.mp
    rw [UInt8.toNat_ofNat', hx]
  unfold toBeBytes fromBeBytes
  rw [hbyte _ a (by omega), hbyte _ b (by omega), hbyte _ c (by omega), hbyte _ d (by omega)]

/-- The length a header announces. -/
def headerLen (header : List UInt8) : ℕ :=
  fromBeBytes (header.getD 1 0) (header.getD 2 0) (header.getD 3 0) (header.getD 4 0)

theorem headerLen_cons (t a b c d : UInt8) (rest : List UInt8) :
    headerLen (t :: a :: b :: c :: d :: rest) = fromBeBytes a b c d := rfl

/-! ### From a buffer -/

/-- `parse_frame`. -/
def parseFrame (buf : List UInt8) : Except FrameError (UInt8 × List UInt8) :=
  if buf.length < 5 then .error .invalidHeader
  else if maxControlFrame < headerLen buf then
    .error (.tooLarge (headerLen buf) maxControlFrame)
  else if buf.length ≠ 5 + headerLen buf then .error .invalidHeader
  else .ok (buf.getD 0 0, buf.drop 5)

/-! ### From a stream -/

/-- What follows the last byte of a stream. -/
inductive StreamTail
  /-- The peer has finished its side. -/
  | finished
  /-- The stream is reset, or the connection lost. -/
  | failed (e : String)
  /-- Nothing arrives before the deadline. -/
  | silent
deriving DecidableEq

/-- The receiving side of a stream: the bytes not yet read, and what follows them. -/
structure RecvStream where
  bytes : List UInt8
  tail : StreamTail
deriving DecidableEq

/-- What a read ends in that needs more bytes than arrive, having got `n` of them. -/
def StreamTail.error (finishedEarly : ℕ → String) (n : ℕ) : StreamTail → FrameIoError
  | finished => .io (finishedEarly n)
  | failed e => .io e
  | silent => .timeout

/-- `read_exact` under the deadline: `n` bytes, or the error, having used up what there was. -/
def readExact (finishedEarly : ℕ → String) (n : ℕ) (s : RecvStream) :
    Except FrameIoError (List UInt8) × RecvStream :=
  if n ≤ s.bytes.length then (.ok (s.bytes.take n), { s with bytes := s.bytes.drop n })
  else (.error (s.tail.error finishedEarly s.bytes.length), { s with bytes := [] })

/-- The inner `read` of `read_frame`: the type byte and the payload, not yet decoded. -/
def readRaw (finishedEarly : ℕ → String) (s : RecvStream) :
    Except FrameIoError (UInt8 × List UInt8) × RecvStream :=
  match readExact finishedEarly 5 s with
  | (.error e, s) => (.error e, s)
  | (.ok header, s) =>
    if maxControlFrame < headerLen header then
      (.error (.frame (.tooLarge (headerLen header) maxControlFrame)), s)
    else
      match readExact finishedEarly (headerLen header) s with
      | (.error e, s) => (.error e, s)
      | (.ok payload, s) => (.ok (header.getD 0 0, payload), s)

/-- `n` frames, one after the other, or the first error. -/
def readFrames (finishedEarly : ℕ → String) :
    ℕ → RecvStream → Except FrameIoError (List (UInt8 × List UInt8)) × RecvStream
  | 0, s => (.ok [], s)
  | n + 1, s =>
    match readRaw finishedEarly s with
    | (.error e, s) => (.error e, s)
    | (.ok f, s) =>
      match readFrames finishedEarly n s with
      | (.error e, s) => (.error e, s)
      | (.ok fs, s) => (.ok (f :: fs), s)

/-! ### What the two decoders accept -/

/-- What `frameBytes` produces. -/
theorem frameBytes_ok_iff {t : UInt8} {p b : List UInt8} :
    frameBytes t p = .ok b ↔
      p.length ≤ maxControlFrame ∧ b = t :: toBeBytes p.length ++ p := by
  unfold frameBytes
  split
  · rename_i h
    refine ⟨fun hb => absurd hb (by simp), fun hb => absurd hb.1 (by omega)⟩
  · rename_i h
    simp only [Except.ok.injEq]
    exact ⟨fun hb => ⟨by omega, hb.symm⟩, fun hb => hb.2.symm⟩

/-- A header of five bytes says a length of at most 32 bits, and says it in one way. -/
theorem toBeBytes_eq_iff {a b c d : UInt8} {n : ℕ} (hn : n < 2 ^ 32) :
    toBeBytes n = [a, b, c, d] ↔ fromBeBytes a b c d = n := by
  constructor
  · intro h
    simp only [toBeBytes, List.cons.injEq, and_true] at h
    obtain ⟨ha, hb, hc, hd⟩ := h
    rw [← ha, ← hb, ← hc, ← hd]
    exact fromBeBytes_ofNat hn
  · intro h
    rw [← h]
    exact toBeBytes_fromBeBytes a b c d

/-- A buffer is an encoded frame iff it starts with a header that announces the rest of it. -/
theorem frameBytes_header_iff {t t' a b c d : UInt8} {p rest : List UInt8} :
    frameBytes t p = .ok (t' :: a :: b :: c :: d :: rest) ↔
      t' = t ∧ rest = p ∧ fromBeBytes a b c d = p.length ∧ p.length ≤ maxControlFrame := by
  rw [frameBytes_ok_iff]
  have hsplit : t :: toBeBytes p.length ++ p =
      t :: UInt8.ofNat (p.length / 2 ^ 24) :: UInt8.ofNat (p.length / 2 ^ 16) ::
        UInt8.ofNat (p.length / 2 ^ 8) :: UInt8.ofNat p.length :: p := rfl
  constructor
  · rintro ⟨hle, hb⟩
    rw [hsplit] at hb
    simp only [List.cons.injEq] at hb
    obtain ⟨rfl, ha, hb, hc, hd, rfl⟩ := hb
    have hlt : rest.length < 2 ^ 32 := by unfold maxControlFrame at hle; omega
    refine ⟨rfl, rfl, (toBeBytes_eq_iff hlt).mp ?_, hle⟩
    rw [ha, hb, hc, hd]
    rfl
  · rintro ⟨rfl, rfl, hlen, hle⟩
    have hlt : rest.length < 2 ^ 32 := by unfold maxControlFrame at hle; omega
    refine ⟨hle, ?_⟩
    rw [(toBeBytes_eq_iff hlt).mpr hlen]
    rfl

/-- An encoded frame has a header. -/
theorem five_le_of_frameBytes {t : UInt8} {p b : List UInt8} (h : frameBytes t p = .ok b) :
    b.length = 5 + p.length := by
  obtain ⟨-, rfl⟩ := frameBytes_ok_iff.mp h
  simp [toBeBytes]
  omega

/-- A byte string is shorter than a header or has one. -/
theorem short_or_header (b : List UInt8) :
    b.length < 5 ∨ ∃ t a b' c d rest, b = t :: a :: b' :: c :: d :: rest := by
  match b with
  | t :: a :: b' :: c :: d :: rest => exact .inr ⟨t, a, b', c, d, rest, rfl⟩
  | [] => exact .inl (by simp)
  | [_] => exact .inl (by simp)
  | [_, _] => exact .inl (by simp)
  | [_, _, _] => exact .inl (by simp)
  | [_, _, _, _] => exact .inl (by simp)

/-! ### The buffer decoder -/

theorem parseFrame_short {b : List UInt8} (h : b.length < 5) :
    parseFrame b = .error .invalidHeader := by
  rw [parseFrame, if_pos h]

theorem parseFrame_header (t a b c d : UInt8) (rest : List UInt8) :
    parseFrame (t :: a :: b :: c :: d :: rest) =
      if maxControlFrame < fromBeBytes a b c d then
        .error (.tooLarge (fromBeBytes a b c d) maxControlFrame)
      else if rest.length ≠ fromBeBytes a b c d then .error .invalidHeader
      else .ok (t, rest) := by
  have hlen : (t :: a :: b :: c :: d :: rest).length = 5 + rest.length := by
    simp only [List.length_cons]
    omega
  rw [parseFrame, headerLen_cons, hlen, if_neg (by omega)]
  generalize fromBeBytes a b c d = len
  have hne : 5 + rest.length ≠ 5 + len ↔ rest.length ≠ len := by omega
  simp only [hne, List.getD_cons_zero, List.drop_succ_cons, List.drop_zero]

/-- `parse_frame` accepts exactly what `frame_bytes` produces. -/
theorem parseFrame_iff {t : UInt8} {p b : List UInt8} :
    parseFrame b = .ok (t, p) ↔ frameBytes t p = .ok b := by
  rcases short_or_header b with hshort | ⟨t', a, b', c, d, rest, rfl⟩
  · rw [parseFrame_short hshort]
    refine ⟨fun h => absurd h (by simp), fun h => ?_⟩
    have hlen := five_le_of_frameBytes h
    omega
  · -- the checks of the decoder against what the encoder guarantees
    rw [parseFrame_header, frameBytes_header_iff]
    split
    · rename_i hbig
      refine ⟨fun h => absurd h (by simp), ?_⟩
      rintro ⟨-, -, hlen, hle⟩
      omega
    · rename_i hfits
      split
      · rename_i hne
        refine ⟨fun h => absurd h (by simp), ?_⟩
        rintro ⟨-, rfl, hlen, -⟩
        exact absurd hlen.symm hne
      · rename_i heq
        have heq : rest.length = fromBeBytes a b' c d := by omega
        simp only [Except.ok.injEq, Prod.mk.injEq]
        constructor
        · rintro ⟨rfl, rfl⟩
          exact ⟨rfl, rfl, heq.symm, by omega⟩
        · rintro ⟨rfl, rfl, -, -⟩
          exact ⟨rfl, rfl⟩

/-! ### The stream decoder -/

section Stream

variable (finishedEarly : ℕ → String)

theorem readRaw_short {s : RecvStream} (h : s.bytes.length < 5) :
    readRaw finishedEarly s =
      (.error (s.tail.error finishedEarly s.bytes.length), { s with bytes := [] }) := by
  have hread : readExact finishedEarly 5 s =
      (.error (s.tail.error finishedEarly s.bytes.length), { s with bytes := [] }) := by
    rw [readExact, if_neg (by omega)]
  rw [readRaw, hread]

theorem readRaw_header (t a b c d : UInt8) (rest : List UInt8) (tail : StreamTail) :
    readRaw finishedEarly ⟨t :: a :: b :: c :: d :: rest, tail⟩ =
      if maxControlFrame < fromBeBytes a b c d then
        (.error (.frame (.tooLarge (fromBeBytes a b c d) maxControlFrame)), ⟨rest, tail⟩)
      else if fromBeBytes a b c d ≤ rest.length then
        (.ok (t, rest.take (fromBeBytes a b c d)), ⟨rest.drop (fromBeBytes a b c d), tail⟩)
      else (.error (tail.error finishedEarly rest.length), ⟨[], tail⟩) := by
  have hread : readExact finishedEarly 5 ⟨t :: a :: b :: c :: d :: rest, tail⟩ =
      (.ok [t, a, b, c, d], ⟨rest, tail⟩) := by
    rw [readExact, if_pos (by simp)]
    rfl
  -- the length is kept a variable: it is not to be computed from its bytes
  obtain ⟨len, hlen⟩ : ∃ len, headerLen [t, a, b, c, d] = len := ⟨_, rfl⟩
  rw [← headerLen_cons t a b c d [], hlen, readRaw, hread]
  simp only [hlen]
  by_cases hbig : maxControlFrame < len
  · rw [if_pos hbig, if_pos hbig]
  · rw [if_neg hbig, if_neg hbig]
    by_cases hle : len ≤ rest.length
    · have hpay : readExact finishedEarly len ⟨rest, tail⟩ =
          (.ok (rest.take len), ⟨rest.drop len, tail⟩) := by
        rw [readExact, if_pos hle]
      rw [if_pos hle, hpay]
      rfl
    · have hpay : readExact finishedEarly len ⟨rest, tail⟩ =
          (.error (tail.error finishedEarly rest.length), ⟨[], tail⟩) := by
        rw [readExact, if_neg hle]
      rw [if_neg hle, hpay]

/-- A frame at the front of a stream is read, and what follows it is left. -/
theorem readRaw_append {t : UInt8} {p b : List UInt8} (h : frameBytes t p = .ok b)
    (rest : List UInt8) (tail : StreamTail) :
    readRaw finishedEarly ⟨b ++ rest, tail⟩ = (.ok (t, p), ⟨rest, tail⟩) := by
  rcases short_or_header b with hshort | ⟨t', a, b', c, d, rest', rfl⟩
  · have hlen := five_le_of_frameBytes h
    omega
  · obtain ⟨rfl, rfl, hlen, hle⟩ := frameBytes_header_iff.mp h
    simp only [List.cons_append]
    rw [readRaw_header, hlen, if_neg (by omega), if_pos (by simp), List.take_left, List.drop_left]

/-- What is read from a stream was an encoded frame at its front. -/
theorem readRaw_ok {s s' : RecvStream} {t : UInt8} {p : List UInt8}
    (h : readRaw finishedEarly s = (.ok (t, p), s')) :
    ∃ b, frameBytes t p = .ok b ∧ s = ⟨b ++ s'.bytes, s'.tail⟩ := by
  obtain ⟨bytes, tail⟩ := s
  rcases short_or_header bytes with hshort | ⟨t', a, b, c, d, rest, rfl⟩
  · rw [readRaw_short finishedEarly hshort] at h
    exact absurd h (by simp)
  · obtain ⟨len, hlen⟩ : ∃ len, fromBeBytes a b c d = len := ⟨_, rfl⟩
    rw [readRaw_header, hlen] at h
    split at h
    · exact absurd h (by simp)
    · rename_i hfits
      split at h
      · rename_i hle
        simp only [Prod.mk.injEq, Except.ok.injEq] at h
        obtain ⟨⟨rfl, rfl⟩, rfl⟩ := h
        have htake : (rest.take len).length = len := List.length_take_of_le hle
        refine ⟨t' :: a :: b :: c :: d :: rest.take len, ?_, ?_⟩
        · refine frameBytes_header_iff.mpr ⟨rfl, rfl, by rw [hlen, htake], ?_⟩
          rw [htake]
          exact Nat.le_of_not_lt hfits
        · simp
      · exact absurd h (by simp)

/-- `read_frame` takes exactly what `frame_bytes` produces. -/
theorem readRaw_iff {t : UInt8} {p b : List UInt8} (tail : StreamTail) :
    frameBytes t p = .ok b ↔ readRaw finishedEarly ⟨b, tail⟩ = (.ok (t, p), ⟨[], tail⟩) := by
  constructor
  · intro h
    have hread := readRaw_append finishedEarly h [] tail
    rwa [List.append_nil] at hread
  · intro h
    obtain ⟨b', hb', heq⟩ := readRaw_ok finishedEarly h
    rw [List.append_nil] at heq
    cases heq
    exact hb'

/-- Reading goes on where the last frame ended. -/
theorem readFrames_encoded (frames : List (UInt8 × List UInt8)) (rest : List UInt8)
    (tail : StreamTail) (h : ∀ f ∈ frames, f.2.length ≤ maxControlFrame) :
    ∃ bs, frames.mapM (fun f => frameBytes f.1 f.2) = .ok bs ∧
      readFrames finishedEarly frames.length ⟨bs.flatten ++ rest, tail⟩ =
        (.ok frames, ⟨rest, tail⟩) := by
  induction frames with
  | nil => exact ⟨[], rfl, rfl⟩
  | cons f frames ih =>
    obtain ⟨bs, hbs, hread⟩ := ih (fun g hg => h g (List.mem_cons_of_mem f hg))
    obtain ⟨b, hb⟩ : ∃ b, frameBytes f.1 f.2 = .ok b :=
      ⟨_, frameBytes_ok_iff.mpr ⟨h f List.mem_cons_self, rfl⟩⟩
    refine ⟨b :: bs, ?_, ?_⟩
    · rw [List.mapM_cons, hb, hbs]
      rfl
    · have hfirst := readRaw_append finishedEarly hb (bs.flatten ++ rest) tail
      rw [List.flatten_cons, List.append_assoc, List.length_cons]
      simp only [readFrames, hfirst, hread]

/-- A stream that ends inside a frame has no frame at its front. -/
theorem readRaw_truncated {t : UInt8} {p b c : List UInt8} (h : frameBytes t p = .ok b)
    (hpre : c <+: b) (hne : c ≠ b) (tail : StreamTail) :
    ∃ e, (readRaw finishedEarly ⟨c, tail⟩).1 = .error e := by
  obtain ⟨r, rfl⟩ := hpre
  rcases hres : readRaw finishedEarly ⟨c, tail⟩ with ⟨e | f, s'⟩
  · exact ⟨e, rfl⟩
  · -- the frame read from `c` is also at the front of the whole encoding, so it is that frame
    obtain ⟨b', hb', heq⟩ := readRaw_ok finishedEarly hres
    have hc : c = b' ++ s'.bytes := congrArg RecvStream.bytes heq
    have hwhole := readRaw_append finishedEarly h [] tail
    rw [List.append_nil, hc, List.append_assoc, readRaw_append finishedEarly hb'] at hwhole
    have hrest : s'.bytes ++ r = [] := congrArg (fun x => x.2.bytes) hwhole
    have hr : r = [] := (List.append_eq_nil_iff.mp hrest).2
    rw [hr, List.append_nil] at hne
    exact absurd rfl hne

/-- Nor has such a buffer. -/
theorem parseFrame_truncated {t : UInt8} {p b c : List UInt8} (h : frameBytes t p = .ok b)
    (hpre : c <+: b) (hne : c ≠ b) : ∃ e, parseFrame c = .error e := by
  cases hc : parseFrame c with
  | error e => exact ⟨e, rfl⟩
  | ok f =>
    obtain ⟨e, he⟩ := readRaw_truncated (fun _ => "") h hpre hne .finished
    rw [(readRaw_iff (fun _ => "") .finished).mp (parseFrame_iff.mp hc)] at he
    exact absurd he (by simp)

end Stream

/-- **Unique decoding.** Frames written one after the other are read back one by one, and what
    follows them is left on the stream; a buffer parses, a stream of just these bytes is read,
    and a frame encodes to them, in one and the same case; what ends inside a frame, or
    announces more than the limit, is refused by both decoders. -/
theorem frames_uniquely_decodable (finishedEarly : ℕ → String) :
    (∀ (frames : List (UInt8 × List UInt8)) (rest : List UInt8) (tail : StreamTail),
      (∀ f ∈ frames, f.2.length ≤ maxControlFrame) →
      ∃ bs, frames.mapM (fun f => frameBytes f.1 f.2) = .ok bs ∧
        readFrames finishedEarly frames.length ⟨bs.flatten ++ rest, tail⟩ =
          (.ok frames, ⟨rest, tail⟩)) ∧
    (∀ (b : List UInt8) (t : UInt8) (p : List UInt8) (tail : StreamTail),
      (parseFrame b = .ok (t, p) ↔ frameBytes t p = .ok b) ∧
        (frameBytes t p = .ok b ↔
          readRaw finishedEarly ⟨b, tail⟩ = (.ok (t, p), ⟨[], tail⟩))) ∧
    (∀ (t : UInt8) (p b c : List UInt8), frameBytes t p = .ok b → c <+: b → c ≠ b →
      (∃ e, parseFrame c = .error e) ∧
        ∀ tail, ∃ e, (readRaw finishedEarly ⟨c, tail⟩).1 = .error e) ∧
    (∀ (t a b c d : UInt8) (rest : List UInt8), maxControlFrame < fromBeBytes a b c d →
      parseFrame (t :: a :: b :: c :: d :: rest) =
          .error (.tooLarge (fromBeBytes a b c d) maxControlFrame) ∧
        ∀ tail, (readRaw finishedEarly ⟨t :: a :: b :: c :: d :: rest, tail⟩).1 =
          .error (.frame (.tooLarge (fromBeBytes a b c d) maxControlFrame))) := by
  refine ⟨?_, ?_, ?_, ?_⟩
  · intro frames rest tail h
    exact readFrames_encoded finishedEarly frames rest tail h
  · intro b t p tail
    exact ⟨parseFrame_iff, readRaw_iff finishedEarly tail⟩
  · intro t p b c h hpre hne
    exact ⟨parseFrame_truncated h hpre hne,
      fun tail => readRaw_truncated finishedEarly h hpre hne tail⟩
  · intro t a b c d rest hbig
    refine ⟨by rw [parseFrame_header, if_pos hbig], fun tail => ?_⟩
    rw [readRaw_header, if_pos hbig]

/-- An empty frame and one of a byte, followed by a byte of something else. -/
theorem frames_uniquely_decodable_two :
    readFrames (fun _ => "") 2 ⟨[2, 0, 0, 0, 0, 1, 0, 0, 0, 1, 7, 9], .silent⟩ =
      (.ok [(2, []), (1, [7])], ⟨[9], .silent⟩) := by
  obtain ⟨hread, -, -, -⟩ := frames_uniquely_decodable (fun _ => "")
  obtain ⟨bs, hbs, h⟩ := hread [(2, []), (1, [7])] [9] .silent (by decide)
  have hbytes : [((2 : UInt8), ([] : List UInt8)), (1, [7])].mapM
      (fun f => frameBytes f.1 f.2) = .ok [[2, 0, 0, 0, 0], [1, 0, 0, 0, 1, 7]] := by
    decide
  rw [hbytes] at hbs
  cases hbs
  exact h

end Tmite.Proto
