import NekoLink.Foundations.Bytes

/-!
# Length-prefixed frames

A packet is framed by its length, in `w` big-endian bytes, and a stream is its packets' frames one
after another.

* `nextFrame_frame` and `eq_of_nextFrame`: taking the first frame undoes framing, and only that.
* `takeFrames_spec`: taking up to `n` frames splits the bytes into frames and what is left.
* `prefix_of_stream`: frames at the front of a stream are its first packets.
* `stream_frames` and `frames_stream`: the whole frames of some bytes, and what they are followed by.
-/

namespace Wire

/-- The packet behind its length. -/
def frame (w : ℕ) (p : List UInt8) : List UInt8 := beBytes w p.length ++ p

/-- The frames of some packets. -/
def stream (w : ℕ) (ps : List (List UInt8)) : List UInt8 := (ps.map (frame w)).flatten

/-- The first frame's packet and what follows it, when all of it is there. -/
def nextFrame (w : ℕ) (bs : List UInt8) : Option (List UInt8 × List UInt8) :=
  if bs.length < w then none
  else
    let n := beValue (bs.take w)
    if bs.length < w + n then none else some (slice bs w (w + n), bs.drop (w + n))

/-- The packets of up to `n` frames, and what follows them. -/
def takeFrames (w : ℕ) : ℕ → List UInt8 → List (List UInt8) × List UInt8
  | 0, bs => ([], bs)
  | n + 1, bs =>
    match nextFrame w bs with
    | none => ([], bs)
    | some (p, rest) => (p :: (takeFrames w n rest).1, (takeFrames w n rest).2)

/-- The packets of all the whole frames, and what follows them. -/
def frames (w : ℕ) (bs : List UInt8) : List (List UInt8) × List UInt8 := takeFrames w bs.length bs

variable {w n : ℕ} {p q bs rest a b : List UInt8} {ps qs : List (List UInt8)}

@[simp] theorem length_frame (w : ℕ) (p : List UInt8) : (frame w p).length = w + p.length := by
  rw [frame, List.length_append, length_beBytes]

@[simp] theorem stream_nil (w : ℕ) : stream w [] = [] := rfl

@[simp] theorem stream_cons (w : ℕ) (p : List UInt8) (ps : List (List UInt8)) :
    stream w (p :: ps) = frame w p ++ stream w ps := rfl

@[simp] theorem stream_append (w : ℕ) (ps qs : List (List UInt8)) :
    stream w (ps ++ qs) = stream w ps ++ stream w qs := by
  simp [stream]

/-! ## One frame -/

/-- The first frame is taken whole. -/
theorem nextFrame_frame (hp : p.length < 256 ^ w) (rest : List UInt8) :
    nextFrame w (frame w p ++ rest) = some (p, rest) := by
  have htake : (frame w p ++ rest).take w = beBytes w p.length := by
    rw [frame, List.append_assoc, List.take_append_of_le_length (by simp)]
    exact List.take_of_length_le (by simp)
  have hn : beValue ((frame w p ++ rest).take w) = p.length := by
    rw [htake, beValue_beBytes_of_lt hp]
  have hslice : slice (frame w p ++ rest) w (w + p.length) = p := by
    rw [slice_append_left (by simp), frame, slice_append_right (by simp)]
    simp [slice]
  have hdrop : (frame w p ++ rest).drop (w + p.length) = rest := by
    rw [← length_frame w p, List.drop_left]
  rw [nextFrame, if_neg (by simp only [List.length_append, length_frame]; omega)]
  simp only [hn]
  rw [if_neg (by simp only [List.length_append, length_frame]; omega), hslice, hdrop]

/-- What is taken is a frame in front of the rest. -/
theorem eq_of_nextFrame (h : nextFrame w bs = some (p, rest)) :
    bs = frame w p ++ rest ∧ p.length < 256 ^ w := by
  rw [nextFrame] at h
  dsimp only at h
  split_ifs at h
  cases h
  have hlen : (slice bs w (w + beValue (bs.take w))).length = beValue (bs.take w) := by
    rw [length_slice (by omega)]
    omega
  have htake : (bs.take w).length = w := List.length_take_of_le (by omega)
  constructor
  · have hheader := beBytes_beValue (bs.take w)
    rw [htake] at hheader
    rw [frame, hlen, hheader, List.append_assoc, slice, Nat.add_sub_cancel_left, ← List.drop_drop,
      List.take_append_drop (beValue (bs.take w)), List.take_append_drop w]
  · rw [hlen]
    conv_rhs => rw [← htake]
    exact beValue_lt _

/-- Two frames at the front of the same bytes are the same. -/
theorem frame_append_inj (hp : p.length < 256 ^ w) (hq : q.length < 256 ^ w)
    (h : frame w p ++ a = frame w q ++ b) : p = q ∧ a = b := by
  have hnext := nextFrame_frame hp a
  rw [h, nextFrame_frame hq b] at hnext
  cases hnext
  exact ⟨rfl, rfl⟩

/-! ## Several frames -/

/-- Taking frames splits the bytes; it stops before `n` frames only when no frame is whole. -/
theorem takeFrames_spec (w n : ℕ) (bs : List UInt8) :
    bs = stream w (takeFrames w n bs).1 ++ (takeFrames w n bs).2 ∧
      (∀ p ∈ (takeFrames w n bs).1, p.length < 256 ^ w) ∧
      ((takeFrames w n bs).1.length < n → nextFrame w (takeFrames w n bs).2 = none) := by
  induction n generalizing bs with
  | zero => exact ⟨rfl, by simp [takeFrames], by simp⟩
  | succ n ih =>
    rw [takeFrames]
    rcases hnext : nextFrame w bs with _ | ⟨p, rest⟩
    · exact ⟨rfl, by simp, fun _ => hnext⟩
    · obtain ⟨hbs, hp⟩ := eq_of_nextFrame hnext
      obtain ⟨hrest, hall, hstop⟩ := ih rest
      refine ⟨?_, ?_, fun hlt => hstop (by simpa using hlt)⟩
      · conv_lhs => rw [hbs, hrest]
        simp
      · intro q hq
        rcases List.mem_cons.mp hq with rfl | hq
        · exact hp
        · exact hall q hq

/-- Frames at the front of a stream are its first packets. -/
theorem prefix_of_stream (hw : 0 < w) (hps : ∀ p ∈ ps, p.length < 256 ^ w)
    (hqs : ∀ q ∈ qs, q.length < 256 ^ w) (h : stream w ps ++ rest <+: stream w qs) :
    ∃ qs', qs = ps ++ qs' ∧ rest <+: stream w qs' := by
  induction ps generalizing qs with
  | nil => exact ⟨qs, rfl, h⟩
  | cons p ps ih =>
    obtain ⟨t, ht⟩ := h
    rcases qs with _ | ⟨q, qs⟩
    · -- a frame is not empty
      have hlen := congrArg List.length ht
      simp only [stream_cons, List.length_append, length_frame, stream_nil, List.length_nil] at hlen
      omega
    · rw [stream_cons, stream_cons, List.append_assoc, List.append_assoc] at ht
      obtain ⟨rfl, hrest⟩ := frame_append_inj (hps p (List.mem_cons_self ..))
        (hqs q (List.mem_cons_self ..)) ht
      obtain ⟨qs', rfl, hqs'⟩ := ih (fun x hx => hps x (List.mem_cons_of_mem _ hx))
        (fun x hx => hqs x (List.mem_cons_of_mem _ hx)) ⟨t, by rw [List.append_assoc]; exact hrest⟩
      exact ⟨qs', rfl, hqs'⟩

/-- Frames are not shorter than their headers. -/
theorem length_mul_le (w : ℕ) (ps : List (List UInt8)) : ps.length * w ≤ (stream w ps).length := by
  induction ps with
  | nil => simp
  | cons p ps ih =>
    rw [stream_cons, List.length_append, length_frame, List.length_cons, Nat.succ_mul]
    omega

/-- All the whole frames are taken. -/
theorem stream_frames (hw : 0 < w) (bs : List UInt8) :
    bs = stream w (frames w bs).1 ++ (frames w bs).2 ∧
      (∀ p ∈ (frames w bs).1, p.length < 256 ^ w) ∧ nextFrame w (frames w bs).2 = none := by
  obtain ⟨hsplit, hall, hstop⟩ := takeFrames_spec w bs.length bs
  refine ⟨hsplit, hall, ?_⟩
  by_cases hlt : (takeFrames w bs.length bs).1.length < bs.length
  · exact hstop hlt
  · -- as many frames as bytes: nothing is left behind them
    have hlen := congrArg List.length hsplit
    rw [List.length_append] at hlen
    have hmul := length_mul_le w (takeFrames w bs.length bs).1
    have hle : (takeFrames w bs.length bs).1.length ≤ (takeFrames w bs.length bs).1.length * w :=
      Nat.le_mul_of_pos_right _ hw
    have hrest : (frames w bs).2 = [] := List.eq_nil_of_length_eq_zero (by rw [frames]; omega)
    rw [hrest, nextFrame, if_pos (by simpa using hw)]

/-- The first of the whole frames, the others, and what follows them. -/
theorem stream_take_frames (hw : 0 < w) (bs : List UInt8) (n : ℕ) :
    bs = stream w ((frames w bs).1.take n) ++
      (stream w ((frames w bs).1.drop n) ++ (frames w bs).2) := by
  obtain ⟨hsplit, -, -⟩ := stream_frames hw bs
  rw [← List.append_assoc, ← stream_append, List.take_append_drop]
  exact hsplit

/-- Packets behind which no frame is whole are all there are. -/
theorem takeFrames_stream (hps : ∀ p ∈ ps, p.length < 256 ^ w) (hrest : nextFrame w rest = none)
    (hn : ps.length ≤ n) : takeFrames w n (stream w ps ++ rest) = (ps, rest) := by
  induction n generalizing ps with
  | zero =>
    obtain rfl := List.eq_nil_of_length_eq_zero (Nat.le_zero.mp hn)
    rfl
  | succ n ih =>
    rw [takeFrames]
    cases ps with
    | nil => rw [stream_nil, List.nil_append, hrest]
    | cons p ps =>
      rw [stream_cons, List.append_assoc, nextFrame_frame (hps p List.mem_cons_self)]
      dsimp only
      rw [ih (fun q hq => hps q (List.mem_cons_of_mem p hq)) (Nat.le_of_succ_le_succ hn)]

theorem frames_stream (hw : 0 < w) (hps : ∀ p ∈ ps, p.length < 256 ^ w)
    (hrest : nextFrame w rest = none) : frames w (stream w ps ++ rest) = (ps, rest) := by
  refine takeFrames_stream hps hrest ?_
  have hmul := length_mul_le w ps
  have hle : ps.length ≤ ps.length * w := Nat.le_mul_of_pos_right _ hw
  rw [List.length_append]
  omega

theorem nextFrame_stream_eq_none (hps : ∀ p ∈ ps, p.length < 256 ^ w)
    (hrest : nextFrame w rest = none) : nextFrame w (stream w ps ++ rest) = none ↔ ps = [] := by
  cases ps with
  | nil => simpa using hrest
  | cons p ps =>
    rw [stream_cons, List.append_assoc, nextFrame_frame (hps p List.mem_cons_self)]
    simp

/-- A stream in which no frame is whole has no packets. -/
theorem eq_nil_of_nextFrame (hps : ∀ p ∈ ps, p.length < 256 ^ w)
    (h : nextFrame w (stream w ps) = none) : ps = [] := by
  rcases ps with _ | ⟨p, ps⟩
  · rfl
  · rw [stream_cons, nextFrame_frame (hps p (List.mem_cons_self ..))] at h
    cases h

end Wire
