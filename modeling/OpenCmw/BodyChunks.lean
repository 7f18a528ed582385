import OpenCmw.Machine

/-!
# Chunks of HTTP/3 response bodies

A body that comes from a reader is handed to the library piece by piece, as
pointers into chunks that the response owns; a chunk goes back to a pool that
all responses share once all of it has been acknowledged. `State` holds the
chunks of each response and the pool, and beside them what the library knows
of each stream: where the bytes it was given are (`handed`), and how many of
them it has acknowledged (`acked`).

The invariant is `Sound`: the bytes that are not acknowledged are those that
the chunks of the response still count as such, in their order, and no chunk
is in two places. One call keeps it (`Sound.read`, `Sound.ack`), and from it
follows all that is claimed of runs: the counters agree with the library's,
the loop over acknowledged chunks ends before it runs out of chunks, and no
chunk in the pool holds a byte that is still to be sent.
-/

namespace OpenCmw.Http3

open Function (update)
open List Nat Function

/-! ## Chunks -/

/-- The size of a chunk's buffer. -/
def bufferSize : Nat := 16384

/-- `id` is the address of the chunk. -/
structure BodyReaderChunk where
  id : Nat
  unacked : Nat := 0
  offset : Nat := 0
  inRange : unacked ≤ offset ∧ offset ≤ bufferSize := by decide
  deriving DecidableEq

namespace BodyReaderChunk

variable (chunk : BodyReaderChunk)

/-- The size of `data()`, the rest of the buffer. -/
def space : Nat := bufferSize - chunk.offset

def bytesAdded (len : Nat) (h : len ≤ chunk.space) : BodyReaderChunk where
  id := chunk.id
  unacked := chunk.unacked + len
  offset := chunk.offset + len
  inRange := by
    have := chunk.inRange
    unfold space at h
    omega

/-- `unacked -= toAck`. -/
def acknowledge (toAck : Nat) : BodyReaderChunk where
  id := chunk.id
  unacked := chunk.unacked - toAck
  offset := chunk.offset
  inRange := by
    have := chunk.inRange
    omega

def clear : BodyReaderChunk where
  id := chunk.id

def full : Bool := chunk.offset == bufferSize

/-- Where the bytes are that the chunk counts as not acknowledged. -/
def pending : List (Nat × Nat) :=
  (List.range' (chunk.offset - chunk.unacked) chunk.unacked).map fun position => (chunk.id, position)

variable (chunk : BodyReaderChunk)

@[simp] theorem length_pending : chunk.pending.length = chunk.unacked := by
  simp [pending]

theorem pending_bytesAdded {len : Nat} (h : len ≤ chunk.space) :
    (chunk.bytesAdded len h).pending = chunk.pending ++
      (List.range' chunk.offset len).map fun position => (chunk.id, position) := by
  have hrange := chunk.inRange
  have hstart : chunk.offset + len - (chunk.unacked + len) = chunk.offset - chunk.unacked := by omega
  have hnext : chunk.offset - chunk.unacked + chunk.unacked = chunk.offset := by omega
  simp only [pending, bytesAdded]
  rw [hstart, ← map_append, ← range'_append_1, hnext]

theorem pending_acknowledge {toAck : Nat} (h : toAck ≤ chunk.unacked) :
    (chunk.acknowledge toAck).pending = chunk.pending.drop toAck := by
  have hrange := chunk.inRange
  have hstart : chunk.offset - (chunk.unacked - toAck) = chunk.offset - chunk.unacked + toAck := by
    omega
  simp only [pending, acknowledge]
  rw [← map_drop, drop_range', hstart, mul_one]

end BodyReaderChunk

open BodyReaderChunk

variable (chunks : List BodyReaderChunk)

/-- The bytes of a response that are not acknowledged. -/
def pendingOf : List (Nat × Nat) := chunks.flatMap pending

theorem length_pendingOf (chunks : List BodyReaderChunk) :
    (pendingOf chunks).length = (chunks.map unacked).sum := by
  rw [pendingOf, length_flatMap]
  simp

theorem mem_pendingOf {chunks : List BodyReaderChunk} {loc : Nat × Nat} (h : loc ∈ pendingOf chunks) :
    ∃ chunk ∈ chunks, loc.1 = chunk.id := by
  obtain ⟨chunk, hchunk, hloc⟩ := mem_flatMap.mp h
  obtain ⟨_, -, rfl⟩ := mem_map.mp hloc
  exact ⟨chunk, hchunk, rfl⟩

/-! ## The pool -/

/-- The part of `SharedData` that the chunks are in; `nextId` is an address
that no chunk has. -/
structure SharedData where
  bodyReaderChunks : List BodyReaderChunk := []
  nextId : Nat := 0

variable (shared : SharedData)

def SharedData.acquireChunk : BodyReaderChunk × SharedData :=
  match shared.bodyReaderChunks.getLast? with
  | some chunk => (chunk, { shared with bodyReaderChunks := shared.bodyReaderChunks.dropLast })
  | none => ({ id := shared.nextId }, { shared with nextId := shared.nextId + 1 })

def SharedData.releaseChunk (chunk : BodyReaderChunk) : SharedData :=
  { shared with bodyReaderChunks := shared.bodyReaderChunks ++ [chunk.clear] }

/-! ## The callbacks -/

/-- The chunks before the one that is read into, and that one: the last chunk
of the response, or a new one. -/
def currentChunk : List BodyReaderChunk × BodyReaderChunk × SharedData :=
  match chunks.getLast? with
  | none => (chunks, shared.acquireChunk)
  | some back => if back.full then (chunks, shared.acquireChunk) else (chunks.dropLast, back, shared)

/-- The loop of `acked_stream_data`: what is left to acknowledge, the chunks
of the response and the pool. -/
structure Acknowledging where
  datalen : Nat
  chunks : List BodyReaderChunk
  shared : SharedData

/-- One round; there is none if the assertion fails. -/
def Acknowledging.round (st : Acknowledging) : Option Acknowledging :=
  match st.chunks with
  | [] => none
  | front :: chunks =>
    let toAck := min st.datalen front.unacked
    let front := front.acknowledge toAck
    let datalen := st.datalen - toAck
    if front.unacked = 0 then
      some { datalen, chunks, shared := st.shared.releaseChunk front }
    else some { st with datalen, chunks := front :: chunks }

/-- The loop, if it ends within this many rounds. -/
def Acknowledging.loop : Nat → Acknowledging → Option Acknowledging
  | 0, _ => none
  | fuel + 1, st => if st.datalen = 0 then some st else st.round.bind (loop fuel)

/-! ## The machine -/

variable {StreamId : Type} [DecidableEq StreamId]

structure State (StreamId : Type) where
  shared : SharedData := {}
  chunks : StreamId → List BodyReaderChunk := fun _ => []
  handed : StreamId → List (Nat × Nat) := fun _ => []
  acked : StreamId → Nat := fun _ => 0

/-- A call of `read_data`, for which the reader returns a number of bytes and
whether there are more, or fails, or one of `acked_stream_data`. -/
inductive Event (StreamId : Type) where
  | read (stream : StreamId) (bytesRead : Nat) (hasMore : Bool)
  | readFailed (stream : StreamId)
  | ack (stream : StreamId) (datalen : Nat)

/-- What `read_data` returns: the `nghttp3_vec`, and whether it is the last. -/
structure Vec where
  chunk : Nat
  start : Nat
  len : Nat
  eof : Bool
  deriving DecidableEq, Repr

variable (s : State StreamId) (stream : StreamId)

/-- The response has a chunk to read into. -/
def State.offer : State StreamId × BodyReaderChunk :=
  let (front, chunk, shared) := currentChunk (s.chunks stream) s.shared
  ({ s with shared, chunks := update s.chunks stream (front ++ [chunk]) }, chunk)

/-- The reader has written into the last chunk. -/
def State.filled (chunk : BodyReaderChunk)
    (bytesRead : Nat) (h : bytesRead ≤ chunk.space) : State StreamId :=
  { s with
    chunks := update s.chunks stream
      ((s.chunks stream).dropLast ++ [chunk.bytesAdded bytesRead h])
    handed := update s.handed stream (s.handed stream ++
      (List.range' chunk.offset bytesRead).map fun position => (chunk.id, position)) }

def State.read (bytesRead : Nat) (hasMore : Bool) : Option (State StreamId × List Vec) :=
  let (s, chunk) := s.offer stream
  -- a reader does not write more than it was offered
  if h : bytesRead ≤ chunk.space then
    some (s.filled stream chunk bytesRead h,
      [{ chunk := chunk.id, start := chunk.offset, len := bytesRead, eof := !hasMore }])
  else none

/-- Each round of the loop takes a chunk away or is the last. -/
def State.ackedStreamData (datalen : Nat) : Option (State StreamId × List Vec) :=
  (Acknowledging.loop ((s.chunks stream).length + 1) ⟨datalen, s.chunks stream, s.shared⟩).map
    fun st =>
      ({ s with
          shared := st.shared
          chunks := update s.chunks stream st.chunks
          acked := update s.acked stream (s.acked stream + datalen) }, [])

def step : Event StreamId → Option (State StreamId × List Vec)
  | .read stream bytesRead hasMore => s.read stream bytesRead hasMore
  | .readFailed stream => some ((s.offer stream).1, [])
  | .ack stream datalen => s.ackedStreamData stream datalen

/-- A reader fills at most the buffer it is offered, and no more is
acknowledged than was handed out. -/
def Allowed : Event StreamId → Prop
  | .read stream bytesRead _ => bytesRead ≤ (s.offer stream).2.space
  | .readFailed _ => True
  | .ack stream datalen => s.acked stream + datalen ≤ (s.handed stream).length

instance (s : State StreamId) (e : Event StreamId) : Decidable (Allowed s e) :=
  match e with
  | .read _ _ _ => inferInstanceAs (Decidable (_ ≤ _))
  | .readFailed _ => inferInstanceAs (Decidable True)
  | .ack _ _ => inferInstanceAs (Decidable (_ ≤ _))

/-! ## The loop -/

/-- Which chunks these are. -/
def idsOf : List Nat := chunks.map (·.id)

theorem idsOf_append (chunks chunks' : List BodyReaderChunk) :
    idsOf (chunks ++ chunks') = idsOf chunks ++ idsOf chunks' := map_append

theorem idsOf_clear (chunks : List BodyReaderChunk) : idsOf (chunks.map clear) = idsOf chunks := by
  rw [idsOf, map_map]
  rfl

variable {datalen : Nat} {stream : StreamId} {s : State StreamId}

theorem Acknowledging.round_done {front : BodyReaderChunk}
    (h : front.unacked ≤ datalen) (chunks : List BodyReaderChunk) (shared : SharedData) :
    round ⟨datalen, front :: chunks, shared⟩ =
      some ⟨datalen - front.unacked, chunks, shared.releaseChunk front⟩ := by
  simp [round, min_eq_right h, acknowledge, SharedData.releaseChunk, clear]

theorem Acknowledging.round_partly {front : BodyReaderChunk}
    (h : datalen < front.unacked) (chunks : List BodyReaderChunk) (shared : SharedData) :
    round ⟨datalen, front :: chunks, shared⟩ =
      some ⟨0, front.acknowledge datalen :: chunks, shared⟩ := by
  have hne : front.unacked - datalen ≠ 0 := by omega
  simp [round, min_eq_left h.le, acknowledge, hne]

/-- What the loop does if there is enough to acknowledge: the chunks that are
done go to the pool, and the others keep what was not acknowledged. -/
theorem Acknowledging.loop_eq : ∀ (chunks : List BodyReaderChunk) (fuel datalen : Nat)
    (shared : SharedData), chunks.length < fuel → datalen ≤ (chunks.map unacked).sum →
    ∃ released kept, loop fuel ⟨datalen, chunks, shared⟩ = some ⟨0, kept,
        { shared with bodyReaderChunks := shared.bodyReaderChunks ++ released.map clear }⟩ ∧
      idsOf chunks = idsOf released ++ idsOf kept ∧
      pendingOf kept = (pendingOf chunks).drop datalen
  | chunks, fuel + 1, 0, shared, _, _ =>
    ⟨[], chunks, by simp [loop], rfl, rfl⟩
  | [], fuel + 1, datalen + 1, shared, _, h => by simp at h
  | front :: chunks, fuel + 1, datalen + 1, shared, hfuel, h => by
    rw [map_cons, sum_cons] at h
    rw [length_cons] at hfuel
    rw [loop, if_neg (succ_ne_zero datalen)]
    have hfront := front.length_pending
    by_cases hdone : front.unacked ≤ datalen + 1
    · obtain ⟨released, kept, hloop, hids, hpending⟩ := loop_eq chunks fuel
        (datalen + 1 - front.unacked) (shared.releaseChunk front) (by omega) (by omega)
      refine ⟨front :: released, kept, ?_, ?_, ?_⟩
      · rw [round_done hdone, Option.bind_some, hloop]
        simp [SharedData.releaseChunk]
      · exact congrArg (front.id :: ·) hids
      · rw [hpending, pendingOf, pendingOf, flatMap_cons, drop_append,
          drop_of_length_le (hfront.trans_le hdone), hfront, nil_append]
    · -- the front chunk is not done, so nothing is left for a next round
      obtain ⟨fuel, rfl⟩ : ∃ n, fuel = n + 1 := ⟨fuel - 1, by omega⟩
      refine ⟨[], front.acknowledge (datalen + 1) :: chunks, ?_, rfl, ?_⟩
      · rw [round_partly (by omega), Option.bind_some, loop, if_pos rfl]
        simp
      · rw [pendingOf, pendingOf, flatMap_cons, flatMap_cons,
          pending_acknowledge front (by omega), drop_append_of_le_length (by omega)]

/-! ## The invariant -/

/-- Every chunk is in one place, and its address is not given out again. -/
structure Placed (shared : SharedData) (chunks : StreamId → List BodyReaderChunk) : Prop where
  nodup : ∀ stream, (idsOf (chunks stream) ++ idsOf shared.bodyReaderChunks).Nodup
  apart : ∀ stream stream', stream ≠ stream' →
    ∀ id ∈ idsOf (chunks stream), id ∉ idsOf (chunks stream')
  fresh : ∀ stream, ∀ id ∈ idsOf (chunks stream) ++ idsOf shared.bodyReaderChunks,
    id < shared.nextId

/-- The library and the responses agree on what is to be acknowledged. -/
structure Sound (s : State StreamId) : Prop where
  placed : Placed s.shared s.chunks
  pending : ∀ stream, (s.handed stream).drop (s.acked stream) = pendingOf (s.chunks stream)
  acked : ∀ stream, s.acked stream ≤ (s.handed stream).length
  cleared : ∀ chunk ∈ s.shared.bodyReaderChunks, chunk.unacked = 0

omit [DecidableEq StreamId] in
theorem sound_initial : Sound ({} : State StreamId) where
  placed := ⟨fun _ => nodup_nil, fun _ _ _ => nofun, fun _ => nofun⟩
  pending _ := rfl
  acked _ := le_rfl
  cleared := nofun

/-- Chunks move between one response and the pool, and new ones may come. -/
theorem Placed.move {shared shared' : SharedData} {chunks : StreamId → List BodyReaderChunk}
    (h : Placed shared chunks) {chunks' : List BodyReaderChunk} (new : List Nat)
    (hperm : (idsOf chunks' ++ idsOf shared'.bodyReaderChunks).Perm
      (new ++ (idsOf (chunks stream) ++ idsOf shared.bodyReaderChunks)))
    (hnew : new.Nodup ∧ ∀ id ∈ new, shared.nextId ≤ id ∧ id < shared'.nextId)
    (hnext : shared.nextId ≤ shared'.nextId) : Placed shared' (update chunks stream chunks') := by
  have hown : (idsOf chunks' ++ idsOf shared'.bodyReaderChunks).Nodup := by
    refine hperm.nodup_iff.mpr (nodup_append.mpr ⟨hnew.1, h.nodup stream, ?_⟩)
    rintro id hid _ hid' rfl
    exact absurd (h.fresh stream id hid') (not_lt.mpr (hnew.2 id hid).1)
  -- what the response and the pool hold is not held by another response
  have hother : ∀ stream', stream' ≠ stream → ∀ id ∈ idsOf (chunks stream'),
      id ∉ idsOf chunks' ++ idsOf shared'.bodyReaderChunks := by
    intro stream' hne id hid hmem
    rcases mem_append.mp (hperm.mem_iff.mp hmem) with hmem | hmem
    · have hlt := h.fresh stream' id (mem_append_left _ hid)
      exact absurd hlt (not_lt.mpr (hnew.2 id hmem).1)
    · rcases mem_append.mp hmem with hmem | hmem
      · exact h.apart stream' stream hne id hid hmem
      · exact (nodup_append.mp (h.nodup stream')).2.2 id hid id hmem rfl
  refine ⟨fun stream' => ?_, fun a b hab id ha hb => ?_, fun stream' id hid => ?_⟩
  · by_cases hs : stream' = stream
    · subst hs
      rwa [update_self]
    · rw [update_of_ne hs]
      refine nodup_append.mpr ⟨(nodup_append.mp (h.nodup stream')).1,
        (nodup_append.mp hown).2.1, ?_⟩
      rintro id hid _ hid' rfl
      exact hother stream' hs id hid (mem_append_right _ hid')
  · by_cases hs : a = stream
    · subst hs
      rw [update_self] at ha
      rw [update_of_ne hab.symm] at hb
      exact hother b hab.symm id hb (mem_append_left _ ha)
    · rw [update_of_ne hs] at ha
      by_cases hs' : b = stream
      · subst hs'
        rw [update_self] at hb
        exact hother a hs id ha (mem_append_left _ hb)
      · rw [update_of_ne hs'] at hb
        exact h.apart a b hab id ha hb
  · have hpool : ∀ id ∈ idsOf chunks' ++ idsOf shared'.bodyReaderChunks, id < shared'.nextId := by
      intro id hid
      rcases mem_append.mp (hperm.mem_iff.mp hid) with hid | hid
      · exact (hnew.2 id hid).2
      · exact (h.fresh stream id hid).trans_le hnext
    by_cases hs : stream' = stream
    · subst hs
      rw [update_self] at hid
      exact hpool id hid
    · rw [update_of_ne hs] at hid
      rcases mem_append.mp hid with hid | hid
      · exact (h.fresh stream' id (mem_append_left _ hid)).trans_le hnext
      · exact hpool id (mem_append_right _ hid)

theorem Sound.ack (h : Sound s) (hallowed : s.acked stream + datalen ≤ (s.handed stream).length) :
    ∃ s', s.ackedStreamData stream datalen = some (s', []) ∧ Sound s' := by
  have hpending := h.pending stream
  have henough : datalen ≤ ((s.chunks stream).map unacked).sum := by
    rw [← length_pendingOf, ← hpending, length_drop]
    omega
  obtain ⟨released, _, hloop, hids, hkept⟩ := Acknowledging.loop_eq (s.chunks stream)
    ((s.chunks stream).length + 1) datalen s.shared (lt_succ_self _) henough
  refine ⟨_, by rw [State.ackedStreamData, hloop]; rfl, ?_, fun stream' => ?_, fun stream' => ?_, ?_⟩
  · refine h.placed.move [] ?_ ⟨nodup_nil, nofun⟩ le_rfl
    rw [hids, idsOf_append, idsOf_clear, nil_append]
    rw [← append_assoc, append_assoc (idsOf released)]
    exact perm_append_comm
  · by_cases hs : stream' = stream
    · subst hs
      simp only [update_self]
      rw [hkept, ← hpending, drop_drop]
    · simp only [update_of_ne hs]
      exact h.pending stream'
  · by_cases hs : stream' = stream
    · subst hs
      simpa only [update_self] using hallowed
    · simpa only [update_of_ne hs] using h.acked stream'
  · intro chunk hchunk
    rcases mem_append.mp hchunk with hchunk | hchunk
    · exact h.cleared chunk hchunk
    · obtain ⟨chunk, -, rfl⟩ := mem_map.mp hchunk
      rfl

/-- A chunk of the pool, or a new one. -/
theorem acquireChunk_cases (shared : SharedData) :
    (∃ pool, shared.bodyReaderChunks = pool ++ [shared.acquireChunk.1] ∧
        shared.acquireChunk.2 = { shared with bodyReaderChunks := pool }) ∨
      shared.bodyReaderChunks = [] ∧ shared.acquireChunk =
        ({ id := shared.nextId }, { shared with nextId := shared.nextId + 1 }) := by
  unfold SharedData.acquireChunk
  cases hlast : shared.bodyReaderChunks.getLast? with
  | none => exact Or.inr ⟨getLast?_eq_none_iff.mp hlast, rfl⟩
  | some chunk =>
    exact Or.inl ⟨_, (dropLast_append_getLast? _ hlast).symm, rfl⟩

variable (h : Sound s)
include h

/-- The response gets a chunk that holds nothing. -/
theorem Sound.acquire (stream : StreamId) : Sound { s with
      shared := s.shared.acquireChunk.2
      chunks := update s.chunks stream (s.chunks stream ++ [s.shared.acquireChunk.1]) } := by
  have hemp : s.shared.acquireChunk.1.unacked = 0 := by
    rcases acquireChunk_cases s.shared with ⟨pool, hpool, -⟩ | ⟨-, hnew⟩
    · exact h.cleared _ (by rw [hpool]; simp)
    · rw [hnew]
  have hnothing : pendingOf [s.shared.acquireChunk.1] = [] :=
    length_eq_zero_iff.mp (by rw [length_pendingOf]; simpa using hemp)
  refine ⟨?_, fun stream' => ?_, h.acked, ?_⟩
  · rcases acquireChunk_cases s.shared with ⟨pool, hpool, hrest⟩ | ⟨hpool, hnew⟩
    · refine h.placed.move [] ?_ ⟨nodup_nil, nofun⟩ (by rw [hrest])
      rw [hrest, hpool, idsOf_append, idsOf_append, nil_append, append_assoc]
      exact perm_append_comm.append_left _
    · rw [hnew]
      refine h.placed.move [s.shared.nextId] ?_ ⟨nodup_singleton _, ?_⟩ (le_succ _)
      · rw [hpool, idsOf_append]
        exact perm_append_comm.append_right _
      · intro id hid
        rw [mem_singleton.mp hid]
        exact ⟨le_rfl, lt_succ_self _⟩
  · by_cases hs : stream' = stream
    · subst hs
      simp only [update_self]
      rw [h.pending stream', pendingOf, pendingOf, flatMap_append]
      exact (append_nil _).symm.trans (congrArg _ hnothing.symm)
    · simp only [update_of_ne hs]
      exact h.pending stream'
  · intro chunk hchunk
    rcases acquireChunk_cases s.shared with ⟨pool, hpool, hrest⟩ | ⟨hpool, hnew⟩
    · rw [hrest] at hchunk
      exact h.cleared chunk (by rw [hpool]; exact mem_append_left _ hchunk)
    · rw [hnew] at hchunk
      exact h.cleared chunk hchunk

/-- A response gets a chunk to read into, and no byte is handed out yet. -/
theorem Sound.offer (stream : StreamId) : Sound (s.offer stream).1 ∧
      ∃ front, (s.offer stream).1.chunks stream = front ++ [(s.offer stream).2] := by
  refine ⟨?_, (currentChunk (s.chunks stream) s.shared).1, update_self ..⟩
  unfold State.offer currentChunk
  cases hlast : (s.chunks stream).getLast? with
  | none => exact h.acquire stream
  | some back =>
    dsimp only
    split_ifs
    · exact h.acquire stream
    · dsimp only
      rw [dropLast_append_getLast? _ hlast, update_eq_self]
      exact h

/-- The reader's bytes are handed out. -/
theorem Sound.filled {front : List BodyReaderChunk} {chunk : BodyReaderChunk}
    (hchunks : s.chunks stream = front ++ [chunk]) {bytesRead : Nat} (hspace : bytesRead ≤ chunk.space) :
    Sound (s.filled stream chunk bytesRead hspace) := by
  have hids : idsOf (front ++ [chunk.bytesAdded bytesRead hspace]) = idsOf (s.chunks stream) := by
    rw [hchunks, idsOf_append, idsOf_append]
    rfl
  have hnew : (s.filled stream chunk bytesRead hspace).chunks =
      update s.chunks stream (front ++ [chunk.bytesAdded bytesRead hspace]) := by
    rw [State.filled, hchunks, dropLast_concat]
  refine ⟨?_, fun stream' => ?_, fun stream' => ?_, h.cleared⟩
  · rw [hnew]
    refine h.placed.move [] ?_ ⟨nodup_nil, nofun⟩ le_rfl
    rw [hids]
    exact List.Perm.refl _
  · rw [hnew]
    by_cases hs : stream' = stream
    · subst hs
      have hpending := h.pending stream'
      have hacked := h.acked stream'
      simp only [State.filled, update_self]
      rw [drop_append_of_le_length hacked, hpending, hchunks, pendingOf, pendingOf,
        flatMap_append, flatMap_append, flatMap_singleton, flatMap_singleton,
        pending_bytesAdded, append_assoc]
    · simp only [State.filled, update_of_ne hs]
      exact h.pending stream'
  · by_cases hs : stream' = stream
    · subst hs
      have hacked := h.acked stream'
      simp only [State.filled, update_self, length_append]
      omega
    · simpa only [State.filled, update_of_ne hs] using h.acked stream'

/-- A reader writes only where nothing waits to be acknowledged, of whatever
response. -/
theorem Sound.offered_free (stream stream' : StreamId)
    {position : Nat} (hpos : (s.offer stream).2.offset ≤ position) :
    ((s.offer stream).2.id, position) ∉ pendingOf ((s.offer stream).1.chunks stream') := by
  obtain ⟨hoffer, _, hchunks⟩ := h.offer stream
  have hown : (s.offer stream).2.id ∈ idsOf ((s.offer stream).1.chunks stream) := by
    rw [hchunks, idsOf_append]
    exact mem_append_right _ mem_cons_self
  intro hmem
  by_cases hs : stream' = stream
  · subst hs
    rw [hchunks, pendingOf, flatMap_append, flatMap_singleton] at hmem
    rcases mem_append.mp hmem with hmem | hmem
    · -- the chunks before it are other chunks
      obtain ⟨chunk, hchunk, hid⟩ := mem_pendingOf hmem
      have hnd := (nodup_append.mp (hoffer.placed.nodup stream')).1
      rw [hchunks, idsOf_append] at hnd
      exact (nodup_append.mp hnd).2.2 chunk.id (mem_map_of_mem hchunk) _
        mem_cons_self hid.symm
    · obtain ⟨p, hp, heq⟩ := mem_map.mp hmem
      obtain rfl : p = position := congrArg Prod.snd heq
      have hrange := (s.offer stream').2.inRange
      rw [mem_range'_1] at hp
      omega
  · obtain ⟨chunk, hchunk, hid⟩ := mem_pendingOf hmem
    exact hoffer.placed.apart stream stream' (Ne.symm hs) _ hown
      (mem_map.mpr ⟨chunk, hchunk, hid.symm⟩)

theorem Sound.read {bytesRead : Nat}
    (hspace : bytesRead ≤ (s.offer stream).2.space) (hasMore : Bool) :
    ∃ s' out, s.read stream bytesRead hasMore = some (s', out) ∧ Sound s' := by
  obtain ⟨hoffer, _, hchunks⟩ := h.offer stream
  exact ⟨_, _, dif_pos hspace, hoffer.filled hchunks hspace⟩

theorem Sound.keep {e : Event StreamId} (hallowed : Allowed s e) :
    ∃ s' out, step s e = some (s', out) ∧ Sound s' := by
  cases e with
  | read stream bytesRead hasMore => exact h.read hallowed hasMore
  | readFailed stream => exact ⟨_, _, rfl, (h.offer stream).1⟩
  | ack stream datalen =>
    obtain ⟨s', hs', hsound⟩ := h.ack hallowed
    exact ⟨s', [], hs', hsound⟩

omit h

/-! ## Runs -/

theorem sound_of_run {trace : List (Event StreamId × List Vec)}
    (h : Run step Allowed {} trace s) : Sound s := by
  refine h.invariant (I := fun _ s => Sound s) sound_initial ?_
  intro trace s e s' out hs hallowed hstep
  obtain ⟨_, _, hs₁, hsound⟩ := hs.keep hallowed
  rw [hs₁] at hstep
  cases hstep
  exact hsound

/-- After every run: each response counts the bytes handed out and not
acknowledged, no chunk in the pool holds such a byte, and every call is
defined - in `acked_stream_data` there is a chunk in each round, and the loop
ends. -/
theorem body_chunks_accounted {trace : List (Event StreamId × List Vec)} {s : State StreamId}
    (h : Run step Allowed {} trace s) :
    (∀ stream, s.acked stream + ((s.chunks stream).map unacked).sum = (s.handed stream).length) ∧
      (∀ stream, ∀ loc ∈ (s.handed stream).drop (s.acked stream),
        ∀ chunk ∈ s.shared.bodyReaderChunks, loc.1 ≠ chunk.id) ∧
      ∀ e, Allowed s e → ∃ s' out, step s e = some (s', out) := by
  have hs := sound_of_run h
  refine ⟨fun stream => ?_, fun stream loc hloc chunk hchunk heq => ?_, fun e hallowed => ?_⟩
  · have hacked := hs.acked stream
    rw [← length_pendingOf, ← hs.pending stream, length_drop]
    omega
  · rw [hs.pending stream] at hloc
    obtain ⟨own, hown, hid⟩ := mem_pendingOf hloc
    refine (nodup_append.mp (hs.placed.nodup stream)).2.2 own.id (mem_map_of_mem hown)
      chunk.id (mem_map_of_mem hchunk) (hid.symm.trans heq)
  · obtain ⟨s', out, hstep, -⟩ := hs.keep hallowed
    exact ⟨s', out, hstep⟩

/-- Two reads of 5 and 7 bytes, of which 6 are acknowledged. -/
theorem body_chunks_accounted_twelve : ∃ (trace : List (Event Nat × List Vec)) (s : State Nat),
    Run step Allowed {} trace s ∧ s.acked 0 = 6 ∧ (s.handed 0).length = 12 ∧
      s.acked 0 + ((s.chunks 0).map unacked).sum = (s.handed 0).length := by
  have hfacts : ∀ r ∈ exec step Allowed ({} : State Nat) [.read 0 5 true, .read 0 7 false, .ack 0 6],
      r.2.acked 0 = 6 ∧ (r.2.handed 0).length = 12 := by decide +kernel
  have hdef : (exec step Allowed ({} : State Nat)
      [.read 0 5 true, .read 0 7 false, .ack 0 6]).isSome = true := by decide +kernel
  obtain ⟨⟨trace, s⟩, hexec⟩ := Option.isSome_iff_exists.mp hdef
  have hrun := Run.of_exec hexec
  obtain ⟨hacked, hhanded⟩ := hfacts (trace, s) hexec
  exact ⟨trace, s, hrun, hacked, hhanded, (body_chunks_accounted hrun).1 0⟩

/-- A reader is given no room that holds bytes handed out and not acknowledged,
of whatever response. -/
theorem offer_keeps_off_unacked {trace : List (Event StreamId × List Vec)} {s : State StreamId}
    (h : Run step Allowed {} trace s) (stream stream' : StreamId) :
    ∀ loc ∈ (s.handed stream').drop (s.acked stream'), loc.1 = (s.offer stream).2.id →
      loc.2 < (s.offer stream).2.offset := by
  have hs := sound_of_run h
  rintro ⟨_, position⟩ hloc rfl
  by_contra hpos
  -- the offer hands out nothing, so the same bytes wait after it
  have hpending := (hs.offer stream).1.pending stream'
  exact hs.offered_free stream stream' (not_lt.mp hpos) (hpending ▸ hloc)

theorem offer_keeps_off_unacked_five :
    ∃ r, exec step Allowed ({} : State Nat) [.read 0 5 true] = some r ∧
      (r.2.handed 0).length = 5 ∧ ∀ loc ∈ (r.2.handed 0).drop (r.2.acked 0),
        loc.1 = (r.2.offer 0).2.id → loc.2 < (r.2.offer 0).2.offset := by
  have hread : (exec step Allowed ({} : State Nat) [.read 0 5 true]).map
      (·.2.handed 0 |>.length) = some 5 := by decide +kernel
  obtain ⟨r, hexec, hlen⟩ := Option.map_eq_some_iff.mp hread
  exact ⟨r, hexec, hlen, offer_keeps_off_unacked (Run.of_exec hexec) 0 0⟩

end OpenCmw.Http3
