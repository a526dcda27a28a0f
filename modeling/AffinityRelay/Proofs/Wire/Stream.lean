import AffinityRelay.Proofs.Wire.Grammar
import AffinityRelay.Wire.Reader

/-!
# Frames out of a stream

What bytes decode to does not depend on how they arrive:

* `Frame.decodeAll_append`: more bytes are decoded together with what was left over before;
* `readCalls`: a reader as it goes, call after call and read after read, with as much room for each read as there
  happens to be. It reports what `readFrames` says (`readCalls_eq`);
* `reports_of_bytes`: its results are the frames of all bytes together, and then the error of the bytes after them or
  what the end of the connection means there, wherever the bytes are cut and calls are given up.
-/

namespace AffinityRelay

namespace Frame

open Decoded

variable {s t rest : List UInt8} {f : Frame} {e : FrameError}

/-! ## Decoding in parts -/

theorem decodeAll_of_value (h : decode s = value f rest) :
    decodeAll s = (f :: (decodeAll rest).1, (decodeAll rest).2) := by
  rw [decodeAll_eq, h]

theorem decodeAll_of_incomplete (h : decode s = incomplete) : decodeAll s = ([], ⟨s, none⟩) := by
  rw [decodeAll_eq, h]

theorem decodeAll_of_invalid (h : decode s = invalid e) : decodeAll s = ([], ⟨s, some e⟩) := by
  rw [decodeAll_eq, h]

theorem decode_append_of_value (h : decode s = value f rest) (t : List UInt8) :
    decode (s ++ t) = value f (rest ++ t) := by
  obtain ⟨u, hu, rfl⟩ := reads.value_iff.1 h
  rw [List.append_assoc]
  exact reads.value_append hu (rest ++ t)

/-- After an error nothing more is decoded. -/
theorem decodeAll_append_of_error {fs : List Frame} (h : decodeAll s = (fs, ⟨rest, some e⟩)) (t : List UInt8) :
    decodeAll (s ++ t) = (fs, ⟨rest ++ t, some e⟩) := by
  induction hn : s.length using Nat.strongRecOn generalizing s fs with
  | _ n ih =>
    cases hd : decode s with
    | value f r =>
      rw [decodeAll_of_value hd] at h
      obtain ⟨rfl, hr⟩ := Prod.mk.inj h
      have hlt : r.length < n := hn ▸ length_decode_lt hd
      rw [decodeAll_of_value (decode_append_of_value hd t), ih r.length hlt (by rw [← hr]) rfl]
    | incomplete =>
      rw [decodeAll_of_incomplete hd] at h
      cases h
    | invalid e' =>
      rw [decodeAll_of_invalid hd] at h
      cases h
      rw [decodeAll_of_invalid (reads.invalid_append hd t)]

/-- Without an error, decoding goes on with what was left over and what comes after. -/
theorem decodeAll_append {fs : List Frame} (h : decodeAll s = (fs, ⟨rest, none⟩)) (t : List UInt8) :
    decodeAll (s ++ t) = (fs ++ (decodeAll (rest ++ t)).1, (decodeAll (rest ++ t)).2) := by
  induction hn : s.length using Nat.strongRecOn generalizing s fs with
  | _ n ih =>
    cases hd : decode s with
    | value f r =>
      rw [decodeAll_of_value hd] at h
      obtain ⟨rfl, hr⟩ := Prod.mk.inj h
      have hlt : r.length < n := hn ▸ length_decode_lt hd
      rw [decodeAll_of_value (decode_append_of_value hd t), ih r.length hlt (by rw [← hr]) rfl, List.cons_append]
    | incomplete =>
      rw [decodeAll_of_incomplete hd] at h
      cases h
      rfl
    | invalid e' =>
      rw [decodeAll_of_invalid hd] at h
      cases h

end Frame

open AffinityRelay.Frame Decoded

/-! ## A reader, read after read -/

/-- The bytes that arrive. -/
def Arrival.data : Arrival → List UInt8
  | .bytes bs => bs
  | .nothingYet => []

/-- The bytes of an arrival that a read leaves, before what arrives later. -/
def leave (bs : List UInt8) (more : List Arrival) : List Arrival :=
  if bs.isEmpty then more else .bytes bs :: more

theorem length_leave_le (bs : List UInt8) (more : List Arrival) :
    ((leave bs more).flatMap Arrival.data).length + (leave bs more).length ≤
      bs.length + 1 + (more.flatMap Arrival.data).length + more.length := by
  unfold leave
  split
  · omega
  · simp only [List.flatMap_cons, Arrival.data, List.length_append, List.length_cons]
    omega

/-- The reports of a reader that is called again and again. A call looks at what is held, and reports a frame or an error
that it finds there. Else it reads, and looks again: into the room that there is at that time, for one byte at least.
When there is nothing to read it is given up, and the next call has what is held. -/
def readCalls (room : Nat → Nat) (ending : Ending) (reads : Nat) (held : List UInt8) (arrivals : List Arrival) :
    List Report :=
  match _h : Frame.decode held with
  | .value f rest => .frame f :: readCalls room ending reads rest arrivals
  | .invalid e => [.failed (.frame e)]
  | .incomplete =>
    match arrivals with
    | [] => [ending.report held]
    | .nothingYet :: more => .waiting held :: readCalls room ending reads held more
    | .bytes [] :: _ => [Ending.closed.report held]
    | .bytes (b :: bs) :: more =>
      readCalls room ending (reads + 1) (held ++ (b :: bs).take (room reads + 1))
        (leave ((b :: bs).drop (room reads + 1)) more)
termination_by ((arrivals.flatMap Arrival.data).length + arrivals.length, held.length)
decreasing_by
  · exact Prod.Lex.right _ (length_decode_lt _h)
  · refine Prod.Lex.left _ _ ?_
    simp only [List.flatMap_cons, Arrival.data, List.nil_append, List.length_cons]
    omega
  · refine Prod.Lex.left _ _ (Nat.lt_of_le_of_lt (length_leave_le _ _) ?_)
    simp only [List.length_drop, List.flatMap_cons, Arrival.data, List.length_append, List.length_cons]
    omega

section Reports

variable {s held rest : List UInt8} {f : Frame} {e : FrameError} {ending : Ending} {arrivals : List Arrival}

theorem readFrames_of_value (h : Frame.decode held = .value f rest) (arrivals : List Arrival) :
    readFrames held ending arrivals = .frame f :: readFrames rest ending arrivals := by
  have hr : ∀ next, readFrames.report held next = .frame f :: readFrames.report rest next := by
    intro next
    rw [readFrames.report, decodeAll_of_value h]
    rfl
  match arrivals with
  | [] | .bytes [] :: _ | .bytes (_ :: _) :: _ | .nothingYet :: _ => simp only [readFrames, hr]

theorem readFrames_of_invalid (h : Frame.decode held = .invalid e) (arrivals : List Arrival) :
    readFrames held ending arrivals = [.failed (.frame e)] := by
  have hr : ∀ next, readFrames.report held next = [.failed (.frame e)] := by
    intro next
    rw [readFrames.report, decodeAll_of_invalid h]
    rfl
  match arrivals with
  | [] | .bytes [] :: _ | .bytes (_ :: _) :: _ | .nothingYet :: _ => simp only [readFrames, hr]

theorem report_of_incomplete (h : Frame.decode held = .incomplete) (next : List UInt8 → List Report) :
    readFrames.report held next = next held := by
  rw [readFrames.report, decodeAll_of_incomplete h]
  rfl

/-- Bytes that arrive are decoded together with what is held. -/
theorem readFrames_bytes (held : List UInt8) (b : UInt8) (bs : List UInt8) (more : List Arrival) :
    readFrames held ending (.bytes (b :: bs) :: more) = readFrames (held ++ b :: bs) ending more := by
  induction hn : held.length using Nat.strongRecOn generalizing held with
  | _ n ih =>
    cases hd : Frame.decode held with
    | value f rest =>
      rw [readFrames_of_value hd, readFrames_of_value (decode_append_of_value hd (b :: bs)),
        ih rest.length (hn ▸ length_decode_lt hd) rest rfl]
    | incomplete => rw [readFrames, report_of_incomplete hd]
    | invalid e => rw [readFrames_of_invalid hd, readFrames_of_invalid (reads.invalid_append hd (b :: bs))]

/-- It does not matter how much room there is for a read. -/
theorem readFrames_leave (held : List UInt8) (b : UInt8) (bs : List UInt8) (more : List Arrival) (n : Nat) :
    readFrames (held ++ (b :: bs).take n) ending (leave ((b :: bs).drop n) more) =
      readFrames held ending (.bytes (b :: bs) :: more) := by
  rw [readFrames_bytes]
  cases hd : (b :: bs).drop n with
  | nil => rw [leave, List.isEmpty_nil, if_pos rfl, List.take_of_length_le (List.drop_eq_nil_iff.1 hd)]
  | cons c cs =>
    rw [leave, List.isEmpty_cons, if_neg Bool.false_ne_true, readFrames_bytes, List.append_assoc, ← hd,
      List.take_append_drop]

/-- Call after call and read after read, a reader reports what it says of all that arrives. -/
theorem readCalls_eq (room : Nat → Nat) (ending : Ending) (reads : Nat) (held : List UInt8)
    (arrivals : List Arrival) : readCalls room ending reads held arrivals = readFrames held ending arrivals := by
  fun_induction readCalls room ending reads held arrivals with
  | case1 reads held arrivals f rest h ih => rw [readFrames_of_value h, ih]
  | case2 reads held arrivals e h => rw [readFrames_of_invalid h]
  | case3 reads held h => rw [readFrames, report_of_incomplete h]
  | case4 reads held h more ih => rw [readFrames, report_of_incomplete h, ih]
  | case5 reads held h more => rw [readFrames, report_of_incomplete h]
  | case6 reads held h b bs more ih => rw [ih, readFrames_leave]

/-- A report is a result of a call, and not the word that it was given up. -/
def Report.isResult : Report → Bool
  | .waiting _ => false
  | _ => true

/-- What comes after the frames of all bytes: an error among the bytes left over, or the end of the connection there. -/
def Ending.after (ending : Ending) (left : Leftover) : Report :=
  match left.error with
  | some e => .failed (.frame e)
  | none => ending.report left.rest

theorem readFrames_nil (held : List UInt8) (ending : Ending) :
    readFrames held ending [] = (decodeAll held).1.map .frame ++ [ending.after (decodeAll held).2] := by
  rcases hd : decodeAll held with ⟨fs, rest, _ | e⟩ <;> simp [readFrames, readFrames.report, Ending.after, hd]

theorem isResult_after (ending : Ending) (left : Leftover) : (ending.after left).isResult = true := by
  obtain ⟨rest, _ | e⟩ := left
  · cases ending with
    | closed => cases rest <;> rfl
    | failed text => rfl
  · rfl

/-- Where a call is given up nothing is lost and nothing is added. -/
theorem results_nothingYet (held : List UInt8) (ending : Ending) (more : List Arrival) :
    (readFrames held ending (.nothingYet :: more)).filter Report.isResult =
      (readFrames held ending more).filter Report.isResult := by
  induction hn : held.length using Nat.strongRecOn generalizing held with
  | _ n ih =>
    cases hd : Frame.decode held with
    | value f rest =>
      rw [readFrames_of_value hd, readFrames_of_value hd, List.filter_cons_of_pos rfl, List.filter_cons_of_pos rfl,
        ih rest.length (hn ▸ length_decode_lt hd) rest rfl]
    | incomplete =>
      rw [readFrames, report_of_incomplete hd]
      exact List.filter_cons_of_neg (by simp [Report.isResult])
    | invalid e => rw [readFrames_of_invalid hd, readFrames_of_invalid hd]

/-- The results of a reader are those of all bytes together. -/
theorem results_eq (ending : Ending) : ∀ (arrivals : List Arrival) (held : List UInt8), .bytes [] ∉ arrivals →
    (readFrames held ending arrivals).filter Report.isResult =
      (decodeAll (held ++ arrivals.flatMap Arrival.data)).1.map .frame ++
        [ending.after (decodeAll (held ++ arrivals.flatMap Arrival.data)).2]
  | [], held, _ => by
    rw [readFrames_nil, List.flatMap_nil, List.append_nil, List.filter_eq_self]
    intro x hx
    rcases List.mem_append.1 hx with hx | hx
    · obtain ⟨f, -, rfl⟩ := List.mem_map.1 hx
      rfl
    · rw [List.mem_singleton.1 hx]
      exact isResult_after ending _
  | .nothingYet :: more, held, h => by
    rw [results_nothingYet, results_eq ending more held (fun hm => h (List.mem_cons_of_mem _ hm))]
    rfl
  | .bytes [] :: more, held, h => absurd List.mem_cons_self h
  | .bytes (b :: bs) :: more, held, h => by
    rw [readFrames_bytes, results_eq ending more _ (fun hm => h (List.mem_cons_of_mem _ hm)), List.append_assoc]
    rfl

/-- A reader reports the frames of all bytes that arrive, in order and each once, and then one thing more: what is wrong
with the bytes after them, or else that the connection ended there, in the middle of a frame, or with an error of its
own. That is so however the bytes are cut, wherever a call is given up and the next one goes on, and however much room
there is at first and for each read. -/
theorem reports_of_bytes (capacity : Nat) (room : Nat → Nat) (ending : Ending) (held : List UInt8)
    (arrivals : List Arrival) (hne : .bytes [] ∉ arrivals) :
    (readFrames? capacity held ending arrivals =
      if Machine.holds capacity 1 then some (readCalls room ending 0 held arrivals) else none) ∧
    (readCalls room ending 0 held arrivals).filter Report.isResult =
      (decodeAll (held ++ arrivals.flatMap Arrival.data)).1.map .frame ++
        [match (decodeAll (held ++ arrivals.flatMap Arrival.data)).2, ending with
          | ⟨_, some e⟩, _ => .failed (.frame e)
          | ⟨[], none⟩, .closed => .ended
          | ⟨_ :: _, none⟩, .closed => .failed .truncated
          | ⟨_, none⟩, .failed text => .failed (.connection text)] := by
  rw [readCalls_eq]
  refine ⟨rfl, (results_eq ending arrivals held hne).trans ?_⟩
  obtain ⟨rest, _ | e⟩ := (decodeAll (held ++ arrivals.flatMap Arrival.data)).2
  · cases ending <;> cases rest <;> rfl
  · rfl

/-- Three frames and the first byte of a fourth, with cuts and calls that are given up in the middle of a frame. -/
theorem reports_of_bytes_cut :
    .bytes [] ∉ [Arrival.bytes [0, 1, 0, 0], .nothingYet, .bytes [0, 0, 0, 0, 0, 7, 4, 10], .nothingYet,
      .bytes [0, 0, 1, 0x42, 0, 1]] ∧
    (readCalls id .closed 0 [] [.bytes [0, 1, 0, 0], .nothingYet, .bytes [0, 0, 0, 0, 0, 7, 4, 10], .nothingYet,
      .bytes [0, 0, 1, 0x42, 0, 1]]).filter Report.isResult =
    [.frame .nop, .frame (.update ⟨7, .v4 #v[10, 0, 0, 1], none⟩), .frame .nop, .failed .truncated] := by
  have hne : .bytes [] ∉ [Arrival.bytes [0, 1, 0, 0], .nothingYet, .bytes [0, 0, 0, 0, 0, 7, 4, 10], .nothingYet,
      .bytes [0, 0, 1, 0x42, 0, 1]] := by decide
  have hd : decodeAll [0, 1, 0, 0, 0, 0, 0, 0, 0, 7, 4, 10, 0, 0, 1, 0x42, 0, 1] =
      ([.nop, .update ⟨7, .v4 #v[10, 0, 0, 1], none⟩, .nop], ⟨[1], none⟩) := by
    have h := decodeAll_encode_append [.nop, .update ⟨7, .v4 #v[10, 0, 0, 1], none⟩, .nop] [1]
    rwa [decodeAll_of_incomplete (show Frame.decode [1] = .incomplete from rfl)] at h
  refine ⟨hne, (reports_of_bytes 256 id .closed [] _ hne).2.trans ?_⟩
  simp only [List.flatMap_cons, List.flatMap_nil, Arrival.data, List.nil_append, List.cons_append, hd]
  rfl

end Reports

end AffinityRelay
