import Mathlib
import KeyedStore.Backend.Scripted
import KeyedStore.Proofs.PoolReturns
import KeyedStore.Proofs.StoreSteps
import KeyedStore.Proofs.WatchedReads

/-!
# Look-ups over any backend

All that a look-up can do, whatever its backend answers: it makes no read, one or two, and what it gives
follows from the last of them. Every buffer that it takes from the pool is given back, but for the one
that is handed out with an item; and a second buffer, which is larger than those of the pool, never
comes there.
-/

namespace KeyedStore.Store

variable {β : Type} {s : Store β} {r : Served} {b : β} {key : Bytes}

/-- What comes of an item once a read filled its buffer, when no other read follows: it is handed out if
the header in it states the length that the backend reports, and is released otherwise. -/
inductive Settles (item : Item) (outcome : Except Error ReadStatus) (s : Store β) :
    EStateM.Result Error (Store β) (Option Item) → Prop where
  | found {layout : Layout} (hlayout : item.layout = .ok layout)
      (houtcome : outcome = .ok (.found layout.total)) : Settles item outcome s (.ok (some item) s)
  | missing (houtcome : outcome = .ok .notFound) :
      Settles item outcome s (.ok none { s with pool := s.pool.reclaim item })
  | failed (cause : Error)
      (hfound : ∀ layout, item.layout = .ok layout → outcome ≠ .ok (.found layout.total))
      (hmissing : outcome ≠ .ok .notFound) :
      Settles item outcome s (.error cause { s with pool := s.pool.reclaim item })

/-- The store that a look-up leaves. -/
def left : EStateM.Result Error (Store β) (Option Item) → Store β
  | .ok _ s' => s'
  | .error _ s' => s'

theorem Settles.left_backend {item : Item} {outcome : Except Error ReadStatus}
    {result : EStateM.Result Error (Store β) (Option Item)} (h : Settles item outcome s result) :
    (left result).backend = s.backend := by
  cases h <;> rfl

theorem settles_accept (item : Item) (length : Nat) (s : Store β) :
    Settles item (.ok (.found length)) s ((do return some (← accept item length)) s) := by
  cases hlayout : item.layout with
  | error e =>
    rw [bind_of_error (accept_of_error hlayout length s)]
    refine .failed e ?_ nofun
    intro layout hl
    rw [hlayout] at hl
    contradiction
  | ok layout =>
    by_cases hlength : layout.total = length
    · subst hlength
      rw [bind_of_ok (accept_of_total hlayout s)]
      exact .found hlayout rfl
    · rw [bind_of_error (accept_of_ne hlayout hlength s)]
      refine .failed _ ?_ nofun
      intro layout' hl houtcome
      rw [hlayout] at hl
      cases hl
      cases houtcome
      exact hlength rfl

/-- A buffer of the pool is back on top of it after a read. -/
theorem reclaim_tail_filled {p : Pool} (hp : p.Sound) (hoffered : r.offered.length = p.bufferSize) :
    (p.stocked p.buffers.tail).reclaim r.filled = p.stocked (r.filled.buffer :: p.buffers.tail) :=
  hp.reclaim_tail (r.capacity_filled.trans hoffered)

/-- A buffer larger than those of the pool does not come there after a read. -/
theorem reclaim_filled_of_lt {p : Pool} (hlarger : p.bufferSize < r.offered.length) :
    p.reclaim r.filled = p := by
  apply Pool.reclaim_of_ne
  rw [Served.capacity_filled]
  exact Nat.ne_of_gt hlarger

/-- What the last read of a look-up says about its result, and how many buffers the pool holds then. An
item keeps a buffer of the pool if it fits such a buffer and lies in one. -/
def Concludes (s : Store β) (reads : List Served) :
    EStateM.Result Error (Store β) (Option Item) → Prop
  | .ok (some item) s' => ∃ r layout, reads.getLast? = some r ∧ item = r.filled ∧
      item.layout = .ok layout ∧ r.reading.outcome = .ok (.found layout.total) ∧
      s'.pool.size = if layout.total ≤ s.pool.bufferSize ∧ item.capacity = s.pool.bufferSize
        then max s.pool.size 1 - 1 else max s.pool.size 1
  | .ok none s' => (∃ r, reads.getLast? = some r ∧ r.reading.outcome = .ok .notFound) ∧
      s'.pool.size = max s.pool.size 1
  | .error _ s' => (∀ r, reads.getLast? = some r → r.reading.outcome ≠ .ok .notFound ∧
        ∀ layout, r.filled.layout = .ok layout → r.reading.outcome ≠ .ok (.found layout.total)) ∧
      (s.pool.heap.allocates s.pool.bufferSize → s'.pool.size = max s.pool.size 1)

/-- An item that was read into a buffer of the pool fits it. -/
theorem fits_iff_offered {layout : Layout} (hlayout : r.filled.layout = .ok layout) :
    layout.total ≤ s.pool.bufferSize ∧ r.filled.capacity = s.pool.bufferSize ↔
      r.offered.length = s.pool.bufferSize := by
  rw [Served.capacity_filled]
  constructor
  · exact And.right
  · intro hoffered
    refine ⟨?_, hoffered⟩
    have htotal : layout.total ≤ r.filled.capacity := (Layout.parse_eq_ok.1 hlayout).2
    rwa [Served.capacity_filled, hoffered] at htotal

theorem Settles.concludes {reads : List Served} {taken : Store β}
    {result : EStateM.Result Error (Store β) (Option Item)}
    (h : Settles r.filled r.reading.outcome taken result) (hlast : reads.getLast? = some r)
    (hkept : taken.pool.size =
      if r.offered.length = s.pool.bufferSize then max s.pool.size 1 - 1 else max s.pool.size 1)
    (hreturned : (taken.pool.reclaim r.filled).size = max s.pool.size 1) :
    Concludes s reads result := by
  cases h with
  | found hlayout houtcome =>
    refine ⟨r, _, hlast, rfl, hlayout, houtcome, ?_⟩
    simp only [fits_iff_offered hlayout]
    exact hkept
  | missing houtcome => exact ⟨⟨r, hlast, houtcome⟩, hreturned⟩
  | failed cause hfound hmissing =>
    refine ⟨?_, fun _ => hreturned⟩
    intro r' hlast'
    obtain rfl := Option.some.inj (hlast.symm.trans hlast')
    exact ⟨hmissing, hfound⟩

/-! ### Reads -/

variable [Backend β]

/-- The backend serves a read, and goes on from another state. -/
def Serves (b : β) (r : Served) (b' : β) : Prop := Backend.read r.key r.offered b = (r.reading, b')

theorem Serves.reads_eq {w w' : Watched β} (h : Serves w r w') : w'.reads = w.reads ++ [r] := by
  rw [Serves, Backend.read, Watched.instBackend] at h
  obtain ⟨hreading, hw⟩ := Prod.mk.inj h
  rw [← hw, hreading]

/-- A read settles what comes of its buffer, unless it asks for a larger one and there is another to
try. -/
theorem readInto_cases (h : Serves s.backend r b) (retries : Nat) :
    Settles r.filled r.reading.outcome { s with backend := b }
        (readInto r.key retries { buffer := r.offered } s) ∨
      ∃ required later, retries = later + 1 ∧ r.reading.outcome = .ok (.tooSmall required) ∧
        r.offered.length < required ∧
        readInto r.key retries { buffer := r.offered } s =
          (do readInto r.key later (← onPool (Pool.allocRaw required)))
            { pool := s.pool.reclaim r.filled, backend := b } := by
  have hfill : fill r.key { buffer := r.offered } s =
      .ok (r.filled, r.reading.outcome) { s with backend := b } := fill_eq h
  cases houtcome : r.reading.outcome with
  | error e =>
    left
    cases retries <;>
    · rw [readInto, bind_of_ok hfill, houtcome]
      exact .failed e (by simp) (by simp)
  | ok status =>
    cases status with
    | found length =>
      left
      cases retries <;>
      · rw [readInto, bind_of_ok hfill, houtcome]
        exact settles_accept r.filled length { s with backend := b }
    | notFound =>
      left
      cases retries <;>
      · rw [readInto, bind_of_ok hfill, houtcome]
        exact .missing rfl
    | tooSmall required =>
      cases retries with
      | zero =>
        left
        rw [readInto, bind_of_ok hfill, houtcome]
        exact .failed _ (by simp) (by simp)
      | succ later =>
        have hrelease : release r.filled { s with backend := b } =
            .ok () { pool := s.pool.reclaim r.filled, backend := b } := rfl
        by_cases hsmall : required ≤ r.filled.capacity
        · left
          rw [readInto, bind_of_ok hfill, houtcome]
          dsimp only
          rw [bind_of_ok hrelease, if_pos hsmall]
          exact .failed _ (by simp) (by simp)
        · right
          rw [Served.capacity_filled] at hsmall
          refine ⟨required, later, rfl, rfl, Nat.lt_of_not_le hsmall, ?_⟩
          rw [← Served.capacity_filled] at hsmall
          rw [readInto, bind_of_ok hfill, houtcome]
          dsimp only
          rw [bind_of_ok hrelease, if_neg hsmall]

/-- A second read is offered a buffer beside the pool, of exactly the size that was asked for. -/
theorem retry_cases (hp : s.pool.Sound) {required : Nat} (hlarger : s.pool.bufferSize < required)
    (key : Bytes) :
    (∃ cause, (do readInto key 0 (← onPool (Pool.allocRaw required))) s = .error cause s) ∨
      ∃ r b, r.key = key ∧ Serves s.backend r b ∧ r.offered.length = required ∧
        Settles r.filled r.reading.outcome { s with backend := b }
          ((do readInto key 0 (← onPool (Pool.allocRaw required))) s) := by
  have hobtains := hp.obtains required
  generalize hobtain : Pool.obtain required s.pool = obtained at hobtains
  cases hobtains with
  | standard hsmall _ => exact absurd hsmall (Nat.not_le.2 hlarger)
  | failed cause _ =>
    left
    have hpool : onPool (Pool.allocRaw required) s = .error cause s :=
      focus_of_error (Pool.allocRaw_of_error hobtain)
    exact ⟨cause, bind_of_error hpool⟩
  | @own buffer _ hlength =>
    right
    have hpool : onPool (Pool.allocRaw required) s = .ok { buffer } s :=
      focus_of_ok (Pool.allocRaw_of_ok hobtain)
    let r : Served := { key, offered := buffer, reading := (Backend.read key buffer s.backend).1 }
    have hserves : Serves s.backend r (Backend.read key buffer s.backend).2 := rfl
    refine ⟨r, _, rfl, hserves, hlength, ?_⟩
    rw [bind_of_ok hpool]
    rcases readInto_cases hserves 0 with hsettles | ⟨_, _, hnone, -⟩
    · exact hsettles
    · contradiction

/-- The reads that a look-up makes, and what it gives. -/
inductive LooksUp (key : Bytes) (s : Store β) :
    List Served → EStateM.Result Error (Store β) (Option Item) → Prop where
  /-- No buffer can be had. -/
  | unread (cause : Error) (ha : ¬ s.pool.heap.allocates s.pool.bufferSize) : LooksUp key s [] (.error cause s)
  /-- The first read settles it. -/
  | once {r : Served} {b : β} {result : EStateM.Result Error (Store β) (Option Item)}
      (hkey : r.key = key) (hserves : Serves s.backend r b)
      (hoffered : r.offered.length = s.pool.bufferSize)
      (hresult : Settles r.filled r.reading.outcome
        { pool := s.pool.stocked s.pool.buffers.tail, backend := b } result) :
      LooksUp key s [r] result
  /-- The first read asks for a larger buffer, which cannot be had. -/
  | refused {r : Served} {b : β} {required : Nat} (hkey : r.key = key)
      (hserves : Serves s.backend r b) (hoffered : r.offered.length = s.pool.bufferSize)
      (houtcome : r.reading.outcome = .ok (.tooSmall required)) (cause : Error) :
      LooksUp key s [r] (.error cause
        { pool := s.pool.stocked (r.filled.buffer :: s.pool.buffers.tail), backend := b })
  /-- The first read asks for a larger buffer, and the second read settles it. -/
  | twice {r r' : Served} {b b' : β} {required : Nat}
      {result : EStateM.Result Error (Store β) (Option Item)} (hkey : r.key = key)
      (hserves : Serves s.backend r b) (hoffered : r.offered.length = s.pool.bufferSize)
      (houtcome : r.reading.outcome = .ok (.tooSmall required))
      (hlarger : s.pool.bufferSize < required) (hkey' : r'.key = key)
      (hserves' : Serves b r' b') (hoffered' : r'.offered.length = required)
      (hresult : Settles r'.filled r'.reading.outcome
        { pool := s.pool.stocked (r.filled.buffer :: s.pool.buffers.tail), backend := b' } result) :
      LooksUp key s [r, r'] result

theorem looksUp_get (hp : s.pool.Sound) (key : Bytes) : ∃ reads, LooksUp key s reads (get key s) := by
  rw [get, bind_of_ok (show EStateM.get s = .ok s s from rfl)]
  have hobtains := hp.obtains s.pool.bufferSize
  generalize hobtain : Pool.obtain s.pool.bufferSize s.pool = obtained at hobtains
  cases hobtains with
  | own hlarge _ => exact absurd hlarge (Nat.lt_irrefl _)
  | failed cause ha =>
    have hpool : onPool (Pool.allocRaw s.pool.bufferSize) s = .error cause s :=
      focus_of_error (Pool.allocRaw_of_error hobtain)
    rw [Nat.max_self] at ha
    rw [bind_of_error hpool]
    exact ⟨[], .unread cause ha⟩
  | @standard buffer _ hlength =>
    let taken : Store β := { s with pool := s.pool.stocked s.pool.buffers.tail }
    have hpool : onPool (Pool.allocRaw s.pool.bufferSize) s = .ok { buffer } taken :=
      focus_of_ok (Pool.allocRaw_of_ok hobtain)
    let r : Served := { key, offered := buffer, reading := (Backend.read key buffer s.backend).1 }
    have hserves : Serves taken.backend r (Backend.read key buffer s.backend).2 := rfl
    rw [bind_of_ok hpool]
    rcases readInto_cases hserves (maxReads - 1) with
      hsettles | ⟨required, later, hlater, houtcome, hlarger, hread⟩
    · exact ⟨[r], .once rfl hserves hlength hsettles⟩
    · obtain rfl : 0 = later := Nat.succ.inj hlater
      -- The first buffer is back before the second is taken, so the pool has as many as ever.
      have hreturned : s.pool.Returned (s.pool.stocked (r.filled.buffer :: s.pool.buffers.tail)) :=
        .top (r.capacity_filled.trans hlength)
      rw [show taken.pool.reclaim r.filled = _ from reclaim_tail_filled hp hlength] at hread
      rw [show r.offered.length = _ from hlength] at hlarger
      let returned : Store β :=
        { pool := s.pool.stocked (r.filled.buffer :: s.pool.buffers.tail)
          backend := (Backend.read key buffer s.backend).2 }
      rw [show readInto key (maxReads - 1) { buffer } taken = _ from hread]
      rcases retry_cases (s := returned) (hreturned.sound hp) hlarger key with
        ⟨cause, hrefused⟩ | ⟨r', b', hkey', hserves', hoffered', hsettles⟩
      · have hlooks : LooksUp key s [r] (.error cause returned) :=
          .refused (s := s) rfl hserves hlength houtcome cause
        rw [← hrefused] at hlooks
        exact ⟨[r], hlooks⟩
      · exact ⟨[r, r'],
          .twice rfl hserves hlength houtcome hlarger hkey' hserves' hoffered' hsettles⟩

/-! ### Ends of a look-up -/

namespace LooksUp

variable {reads : List Served} {result : EStateM.Result Error (Store β) (Option Item)}

theorem concludes (hp : s.pool.Sound) (h : LooksUp key s reads result) : Concludes s reads result := by
  cases h with
  | unread cause ha => exact ⟨nofun, fun hallocates => absurd hallocates ha⟩
  | @once r b _ hkey hserves hoffered hresult =>
    apply hresult.concludes rfl
    · rw [if_pos hoffered]
      exact s.pool.size_stocked_tail
    · rw [reclaim_tail_filled hp hoffered]
      exact s.pool.size_stocked_cons_tail _
  | refused hkey hserves hoffered houtcome cause =>
    refine ⟨?_, fun _ => s.pool.size_stocked_cons_tail _⟩
    rintro last ⟨⟩
    simp only [List.getLast_singleton, houtcome]
    exact ⟨nofun, fun _ _ => nofun⟩
  | @twice r r' b b' required _ hkey hserves hoffered houtcome hlarger hkey' hserves' hoffered' hresult =>
    rw [← hoffered'] at hlarger
    apply hresult.concludes rfl
    · rw [if_neg (Nat.ne_of_gt hlarger)]
      exact s.pool.size_stocked_cons_tail _
    · rw [reclaim_filled_of_lt (p := s.pool.stocked _) hlarger]
      exact s.pool.size_stocked_cons_tail _

theorem length_le (h : LooksUp key s reads result) : reads.length ≤ maxReads := by
  rw [maxReads]
  cases h <;> simp

theorem key_eq (h : LooksUp key s reads result) : ∀ r ∈ reads, r.key = key := by
  cases h with
  | unread cause ha => nofun
  | once hkey hserves hoffered hresult => exact List.forall_mem_singleton.2 hkey
  | refused hkey hserves hoffered houtcome cause => exact List.forall_mem_singleton.2 hkey
  | twice hkey hserves hoffered houtcome hlarger hkey' hserves' hoffered' hresult =>
    exact List.forall_mem_cons.2 ⟨hkey, List.forall_mem_singleton.2 hkey'⟩

theorem offered_first (h : LooksUp key s reads result) (hfirst : reads.head? = some r) :
    r.offered.length = s.pool.bufferSize := by
  cases h with
  | unread cause ha => contradiction
  | once hkey hserves hoffered hresult =>
    cases hfirst
    exact hoffered
  | refused hkey hserves hoffered houtcome cause =>
    cases hfirst
    exact hoffered
  | twice hkey hserves hoffered houtcome hlarger hkey' hserves' hoffered' hresult =>
    cases hfirst
    exact hoffered

theorem offered_second {r' : Served} (h : LooksUp key s [r, r'] result) :
    ∃ required, r.reading.outcome = .ok (.tooSmall required) ∧ s.pool.bufferSize < required ∧
      r'.offered.length = required := by
  cases h with
  | twice hkey hserves hoffered houtcome hlarger hkey' hserves' hoffered' hresult =>
    exact ⟨_, houtcome, hlarger, hoffered'⟩

/-- A watched backend records the reads of a look-up. -/
theorem left_reads {s : Store (Watched β)} {result : EStateM.Result Error (Store (Watched β)) (Option Item)}
    (h : LooksUp key s reads result) : (left result).backend.reads = s.backend.reads ++ reads := by
  cases h with
  | unread cause ha => exact (List.append_nil _).symm
  | once hkey hserves hoffered hresult =>
    rw [hresult.left_backend]
    exact hserves.reads_eq
  | refused hkey hserves hoffered houtcome cause => exact hserves.reads_eq
  | twice hkey hserves hoffered houtcome hlarger hkey' hserves' hoffered' hresult =>
    rw [hresult.left_backend]
    refine hserves'.reads_eq.trans ?_
    rw [hserves.reads_eq, List.append_assoc]
    rfl

end LooksUp

omit [Backend β] in
theorem concludes_watched {reads : List Served}
    {result : EStateM.Result Error (Store β) (Option Item)} :
    Concludes (s.watched []) reads (watchedResult reads result) ↔ Concludes s reads result := by
  obtain (_ | _) | _ := result <;> exact Iff.rfl

omit [Backend β] in
theorem reads_left_watchedResult {reads : List Served}
    {result : EStateM.Result Error (Store β) (Option Item)} :
    (left (watchedResult reads result)).backend.reads = reads := by
  cases result <;> rfl

/-- A look-up makes at most two reads, the second only for a value that is larger than the buffers of the
pool. Its last read decides whether it gives an item, nothing or an error, and every buffer is back in the
pool unless the item lies in it. -/
theorem get_accounts_for_buffers (hp : s.pool.Reachable) (key : Bytes) :
    ∃ reads, get key (s.watched []) = watchedResult reads (get key s) ∧
      reads.length ≤ maxReads ∧ (∀ r ∈ reads, r.key = key) ∧
      (∀ r, reads.head? = some r → r.offered.length = s.pool.bufferSize) ∧
      (∀ r r', reads = [r, r'] → ∃ required, r.reading.outcome = .ok (.tooSmall required) ∧
        s.pool.bufferSize < required ∧ r'.offered.length = required) ∧
      Concludes s reads (get key s) := by
  obtain ⟨reads, hlooks⟩ := looksUp_get (s := s.watched []) hp.sound key
  obtain ⟨record, hwatched⟩ := get_watched key s
  have hsound : (s.watched []).pool.Sound := hp.sound
  have hreads := hlooks.left_reads
  have hends := hlooks.concludes hsound
  rw [hwatched] at hreads hends
  -- The record of the watched backend is the list of reads that the look-up is known to make.
  obtain rfl : record = reads := reads_left_watchedResult.symm.trans hreads
  refine ⟨record, hwatched, hlooks.length_le, hlooks.key_eq, ?_, ?_, concludes_watched.1 hends⟩
  · intro r hfirst
    exact hlooks.offered_first hfirst
  · rintro r r' rfl
    exact hlooks.offered_second

/-- An item with a value of one byte. -/
def smallItem : Bytes :=
  [3, 0, 0, 0, 1, 0, 6, Header.magic, 97, 0, 32, 48, 32, 49, 13, 10, 118, 13, 10]

/-- A store over a backend that asks for a larger buffer and then answers with a small item. -/
def resized : Store Scripted where
  pool := Pool.empty 64 500 4000
  backend := { reads := [
    { outcome := .ok (.tooSmall 100) },
    { outcome := .ok (.found smallItem.length), written := smallItem }] }

theorem get_accounts_for_buffers_of_resized :
    resized.pool.Reachable ∧ ∃ reads, Concludes resized reads (get [97] resized) ∧
      reads.map (fun r => r.offered.length) = [64, 100] := by
  have hp : resized.pool.Reachable := .empty 64 500 4000
  obtain ⟨reads, hwatched, -, -, -, -, hends⟩ := get_accounts_for_buffers hp [97]
  refine ⟨hp, reads, hends, ?_⟩
  have hrecord : (left (get [97] (resized.watched []))).backend.reads = reads := by
    rw [hwatched, reads_left_watchedResult]
  rw [← hrecord]
  cbv

/-- The item is no larger than the buffers of the pool, and yet leaves all of them there. -/
theorem pool_keeps_buffers_of_resized :
    resized.pool.heap.allocates resized.pool.bufferSize ∧ ∃ item s', get [97] resized = .ok (some item) s' ∧
      item.total = .ok 19 ∧ resized.pool.poolSized item = true ∧
      s'.pool.size ≠ max resized.pool.size 1 - 1 := by
  let item : Item := { buffer := smallItem ++ List.replicate 81 0 }
  let left : Store Scripted :=
    { pool := resized.pool.stocked [List.replicate 64 0]
      backend := { calls := [.read [97] 100, .read [97] 64] } }
  have hget : get [97] resized = .ok (some item) left := by cbv
  exact ⟨rfl, item, left, hget, by cbv, by cbv, Nat.one_ne_zero⟩

end KeyedStore.Store
