import Jega.Bits.Bitmap
import Jega.Wheel.Slots
import Jega.Io.Picoev
import Jega.Trace.Rules

/-!
# Jega.Picoev.Model — a picoev loop over epoll

`picoev.h` and `picoev_epoll.c` as jega compiles them: with deferred deletes and
without the asserts. A handler may call picoev, so the loops of
`picoev_poll_once_internal` and `picoev_handle_timeout_internal` are cut at each
of their tests: `Pc` is where the loop is, with its local variables, and between
two steps of the loop any calls may come. Outside `picoev_loop_once` they come
from the rest of the program.

The kernel has the open descriptors and the entries of the epoll set. An entry
belongs to an open file and a number: `close` takes it out with the file's last
descriptor only, so a duplicate (`dup`, `fork`) keeps it, and from then on no
`epoll_ctl` on that number finds it (`stale`). What `epoll_wait` reports, what
`time` returns and whether a `close` leaves an entry are in the labels.

`picoev_loop_once` inside a handler is left out. So are descriptors from `max_fd`
on: the asserts that exclude them are compiled away.
-/

namespace Jega.Picoev

open Io (Events Revents)
open Bits

/-! ## The tables -/

abbrev PICOEV_SHORT_BITS : Nat := 16

abbrev PICOEV_SIMD_BITS : Nat := 128

abbrev PICOEV_TIMEOUT_VEC_SIZE : Nat := 128

/-- `UCHAR_MAX`. -/
abbrev PICOEV_TIMEOUT_IDX_UNUSED : Nat := 255

def PICOEV_RND_UP (v d : Nat) : Nat := (v + d - 1) / d * d

/-- The `loop_id` of the one loop; a free slot has 0. -/
abbrev loop_id : Nat := 1

/-- The arguments of `picoev_init` and `picoev_create_loop`. -/
structure Config where
  max_fd : Nat
  max_timeout : Nat
  max_timeout_pos : 0 < max_timeout

variable (c : Config)

def Config.timeout_vec_size : Nat := PICOEV_RND_UP c.max_fd PICOEV_SIMD_BITS / PICOEV_SHORT_BITS

def Config.timeout_vec_of_vec_size : Nat :=
  PICOEV_RND_UP c.timeout_vec_size PICOEV_SIMD_BITS / PICOEV_SHORT_BITS

def Config.resolution : Int :=
  (PICOEV_RND_UP c.max_timeout PICOEV_TIMEOUT_VEC_SIZE / PICOEV_TIMEOUT_VEC_SIZE : Nat)

/-- What `init_main_loop` gives them: `MAX_FD` descriptors, and slots of a second. -/
def jega : Config := ⟨4096, 60, by decide⟩

example : jega.resolution = 1 := rfl

structure picoev_fd where
  loop_id : Nat
  events : Events
  timeout_idx : Nat
deriving DecidableEq, Repr

/-- What `epoll_wait` says of a descriptor: `EPOLLIN`, `EPOLLOUT`, and `EPOLLERR`
or `EPOLLHUP`. -/
structure epoll_event where
  fd : Nat
  epollin : Bool
  epollout : Bool
  epollerr : Bool
deriving DecidableEq, Repr

/-- Where the loop is. The last four are in `picoev_handle_timeout_internal`, at
the tests of its four loops. -/
inductive Pc where
  | idle
  | poll (events : List epoll_event)
  | rounds
  | shorts (i : Nat)
  | words (i j : Nat) (vv : BitVec PICOEV_SHORT_BITS)
  | bits (i j : Nat) (vv : BitVec PICOEV_SHORT_BITS) (k : Nat) (v : BitVec PICOEV_SHORT_BITS)
deriving DecidableEq

structure St where
  fds : Nat → picoev_fd
  /-- `PICOEV_TIMEOUT_VEC_OF(loop, idx)`, by `idx`. -/
  vec : Nat → Nat → BitVec PICOEV_SHORT_BITS
  vec_of_vec : Nat → Nat → BitVec PICOEV_SHORT_BITS
  base_idx : Nat
  base_time : Int
  now : Int
  opened : Nat → Bool
  /-- The entry of the file that has the number now. -/
  interest : Nat → Option Events
  /-- The entries of files that had it and are still open under another one. -/
  stale : Nat → List Events
  pc : Pc

/-- `arr[i][j] = x`. -/
def write {α : Type} (arr : Nat → Nat → α) (i j : Nat) (x : α) : Nat → Nat → α :=
  Function.update arr i (Function.update (arr i) j x)

/-- The state after `picoev_create_loop`, at the time `base_time`. The tables are
zeroed, `timeout_idx` included; `loop->now` is not written. -/
def picoev_create_loop (base_time now : Int) : St where
  fds _ := ⟨0, ⟨false, false⟩, 0⟩
  vec _ _ := 0#_
  vec_of_vec _ _ := 0#_
  base_idx := 0
  base_time := base_time
  now := now
  opened _ := false
  interest _ := none
  stale _ := []
  pc := .idle

/-! ## Timeouts -/

/-- The first half of `picoev_set_timeout`. -/
def clear_timeout (s : St) (fd : Nat) : St :=
  let target := s.fds fd
  let vi := fd / PICOEV_SHORT_BITS
  if target.timeout_idx ≠ PICOEV_TIMEOUT_IDX_UNUSED then
    let idx := target.timeout_idx
    let word := s.vec idx vi &&& ~~~ bit PICOEV_SHORT_BITS (fd % PICOEV_SHORT_BITS)
    { s with
      vec := write s.vec idx vi word
      vec_of_vec :=
        if word = 0#_ then
          write s.vec_of_vec idx (vi / PICOEV_SHORT_BITS)
            (s.vec_of_vec idx (vi / PICOEV_SHORT_BITS) &&&
              ~~~ bit PICOEV_SHORT_BITS (vi % PICOEV_SHORT_BITS))
        else s.vec_of_vec
      fds := Function.update s.fds fd { target with timeout_idx := PICOEV_TIMEOUT_IDX_UNUSED } }
  else s

/-- `delta` is a `size_t`: a negative quotient is a huge one. -/
def delta (s : St) (secs : Int) : Nat :=
  let delta := Int.tdiv (s.now + secs - s.base_time) c.resolution
  if delta < 0 ∨ PICOEV_TIMEOUT_VEC_SIZE ≤ delta then PICOEV_TIMEOUT_VEC_SIZE - 1 else delta.toNat

/-- The slot of a timeout. -/
def timeout_slot (s : St) (secs : Int) : Nat :=
  (s.base_idx + delta c s secs) % PICOEV_TIMEOUT_VEC_SIZE

/-- The second half of `picoev_set_timeout`. -/
def arm_timeout (s : St) (fd : Nat) (secs : Int) : St :=
  let target := s.fds fd
  let vi := fd / PICOEV_SHORT_BITS
  let idx := timeout_slot c s secs
  { s with
    vec := write s.vec idx vi (s.vec idx vi ||| bit PICOEV_SHORT_BITS (fd % PICOEV_SHORT_BITS))
    vec_of_vec :=
      write s.vec_of_vec idx (vi / PICOEV_SHORT_BITS)
        (s.vec_of_vec idx (vi / PICOEV_SHORT_BITS) |||
          bit PICOEV_SHORT_BITS (vi % PICOEV_SHORT_BITS))
    fds := Function.update s.fds fd { target with timeout_idx := idx } }

def picoev_set_timeout (s : St) (fd : Nat) (secs : Int) : St :=
  let s := clear_timeout s fd
  if secs ≠ 0 then arm_timeout c s fd secs else s

/-! ## Events -/

inductive EpollCtl where
  | ADD
  | MOD
  | DEL
deriving DecidableEq, Repr

/-- `epoll_ctl`, `none` for an error. -/
def epoll_ctl (s : St) (op : EpollCtl) (fd : Nat) (events : Events) : Option St :=
  match op, s.opened fd, s.interest fd with
  | .ADD, true, none => some { s with interest := Function.update s.interest fd (some events) }
  | .MOD, true, some _ => some { s with interest := Function.update s.interest fd (some events) }
  | .DEL, true, some _ => some { s with interest := Function.update s.interest fd none }
  | _, _, _ => none

/-- `del` is the flag `PICOEV_DEL`. -/
def picoev_update_events_internal (s : St) (fd : Nat) (events : Events) (del : Bool) : St :=
  if events = (s.fds fd).events then s
  else
    let s :=
      if del then s
      else if events = ⟨false, false⟩ then (epoll_ctl s .DEL fd events).getD s
      else
        match epoll_ctl s .MOD fd events with
        | some s => s
        | none => (epoll_ctl s .ADD fd events).getD s
    { s with fds := Function.update s.fds fd { s.fds fd with events := events } }

/-- The assignments of `picoev_add`. -/
def fresh (s : St) (fd : Nat) : St :=
  { s with fds := Function.update s.fds fd ⟨loop_id, ⟨false, false⟩, PICOEV_TIMEOUT_IDX_UNUSED⟩ }

def picoev_add (s : St) (fd : Nat) (events : Events) (timeout_in_secs : Int) : St :=
  let s := fresh s fd
  let s := picoev_update_events_internal s fd events false
  picoev_set_timeout c s fd timeout_in_secs

def picoev_del (s : St) (fd : Nat) : St :=
  let s := picoev_update_events_internal s fd ⟨false, false⟩ true
  let s := picoev_set_timeout c s fd 0
  { s with fds := Function.update s.fds fd { s.fds fd with loop_id := 0 } }

def picoev_set_events (s : St) (fd : Nat) (events : Events) : St :=
  if (s.fds fd).events ≠ events then picoev_update_events_internal s fd events false else s

/-! ## The loop -/

/-- The `revents` of `picoev_poll_once_internal`. -/
def revents (event : epoll_event) : Revents := ⟨event.epollin, event.epollout, false, event.epollerr⟩

/-- The test of `picoev_poll_once_internal`. -/
def watched (s : St) (fd : Nat) : Bool :=
  (s.fds fd).loop_id = loop_id ∧ (s.fds fd).events ≠ ⟨false, false⟩

/-- One round of `picoev_poll_once_internal`, to the call of the handler. -/
def picoev_poll_once_internal (s : St) (event : epoll_event) (events : List epoll_event) : St :=
  let s := { s with pc := .poll events }
  if watched s event.fd then s
  else (epoll_ctl s .DEL event.fd ⟨false, false⟩).getD s

/-- One test of `picoev_handle_timeout_internal`, to the call of the handler. -/
def picoev_handle_timeout_internal (s : St) : Option St :=
  match s.pc with
  | .rounds =>
    if s.base_time ≤ s.now - c.resolution then some { s with pc := .shorts 0 }
    else some { s with pc := .idle }
  | .shorts i =>
    if i < c.timeout_vec_of_vec_size then
      let vv := s.vec_of_vec s.base_idx i
      if vv ≠ 0#_ then some { s with pc := .words i (i * PICOEV_SHORT_BITS) vv }
      else some { s with pc := .shorts (i + 1) }
    else
      some { s with
        base_idx := (s.base_idx + 1) % PICOEV_TIMEOUT_VEC_SIZE
        base_time := s.base_time + c.resolution
        pc := .rounds }
  | .words i j vv =>
    if vv ≠ 0#_ then
      if vv.msb then some { s with pc := .bits i j vv (j * PICOEV_SHORT_BITS) (s.vec s.base_idx j) }
      else some { s with pc := .words i (j + 1) (vv <<< 1) }
    else
      some { s with vec_of_vec := write s.vec_of_vec s.base_idx i 0#_, pc := .shorts (i + 1) }
  | .bits i j vv k v =>
    if v ≠ 0#_ then
      let pc := Pc.bits i j vv (k + 1) (v <<< 1)
      if v.msb then
        some { s with
          fds := Function.update s.fds k
            { s.fds k with timeout_idx := PICOEV_TIMEOUT_IDX_UNUSED }
          pc := pc }
      else some { s with pc := pc }
    else
      some { s with vec := write s.vec s.base_idx j 0#_, pc := .words i (j + 1) (vv <<< 1) }
  | _ => none

/-- The events that the kernel watches under a number. -/
def St.watches (s : St) (fd : Nat) : List Events := (s.interest fd).toList ++ s.stale fd

/-- What `epoll_wait` may report: of each entry one event. -/
def Reportable (s : St) (events : List epoll_event) : Prop :=
  events.length ≤ 1024 ∧ ∀ event ∈ events,
    (events.map epoll_event.fd).count event.fd ≤ (s.watches event.fd).length ∧
    ∃ ev ∈ s.watches event.fd,
      (event.epollin = true → ev.read = true) ∧ (event.epollout = true → ev.write = true)

instance (s : St) (events : List epoll_event) : Decidable (Reportable s events) :=
  inferInstanceAs (Decidable (_ ∧ _))

/-- The calls into picoev, what the kernel does to a descriptor, and the steps of
`picoev_loop_once`: it reads the clock and waits, which a signal may interrupt;
it goes through what `epoll_wait` reported; it reads the clock again (not if
`max_wait` is 0: then that is the first time); it handles the timeouts. -/
inductive Act where
  | add (fd : Nat) (events : Events) (timeout_in_secs : Nat)
  | del (fd : Nat)
  | set_events (fd : Nat) (events : Events)
  | set_timeout (fd : Nat) (secs : Nat)
  | opens (fd : Nat)
  /-- `kept`: a duplicate is open. -/
  | closes (fd : Nat) (kept : Bool)
  /-- The last duplicate is closed. -/
  | released (fd : Nat) (ev : Events)
  | loop_once (now : Int) (events : List epoll_event)
  | interrupted (now : Int)
  | poll
  | polled (now : Int)
  | handle_timeout
deriving DecidableEq

def step (s : St) : Act → Option St
  | .add fd events timeout_in_secs =>
    if fd < c.max_fd then some (picoev_add c s fd events timeout_in_secs) else none
  | .del fd => if fd < c.max_fd then some (picoev_del c s fd) else none
  | .set_events fd events => if fd < c.max_fd then some (picoev_set_events s fd events) else none
  | .set_timeout fd secs => if fd < c.max_fd then some (picoev_set_timeout c s fd secs) else none
  | .opens fd =>
    if s.opened fd = false then some { s with opened := Function.update s.opened fd true } else none
  | .closes fd kept =>
    some { s with
      opened := Function.update s.opened fd false
      interest := Function.update s.interest fd none
      stale := if kept then Function.update s.stale fd (s.watches fd) else s.stale }
  | .released fd ev =>
    some { s with stale := Function.update s.stale fd ((s.stale fd).erase ev) }
  | .loop_once now events =>
    if s.pc = .idle ∧ Reportable s events then some { s with now := now, pc := .poll events }
    else none
  | .interrupted now => if s.pc = .idle then some { s with now := now } else none
  | .poll =>
    match s.pc with
    | .poll (event :: events) => some (picoev_poll_once_internal s event events)
    | _ => none
  | .polled now => if s.pc = .poll [] then some { s with now := now, pc := .rounds } else none
  | .handle_timeout => picoev_handle_timeout_internal c s

/-- The handler that a step calls: the descriptor and its events. -/
def called (s : St) : Act → Option (Nat × Revents)
  | .poll =>
    match s.pc with
    | .poll (event :: _) =>
      if watched s event.fd ∧ (revents event).nonzero then some (event.fd, revents event) else none
    | _ => none
  | .handle_timeout =>
    match s.pc with
    | .bits _ _ _ k v => if v.msb then some (k, ⟨false, false, true, false⟩) else none
    | _ => none
  | _ => none

end Jega.Picoev
