import Jega.Loop.Model
import Jega.Trace.Rules

/-!
# Jega.Channel.Model — channels

`channel.c` as a system of any number of channels and greenlets on one loop.

* The three functions that touch a channel are `ChannelObject_send`,
  `ChannelObject_recv` and `ChannelObject_notify`; the last one runs in the
  loop's greenlet, where it is cut at its two switches (`Frame`).
* A greenlet is either suspended in a switch of one of them or somewhere else
  (`Where`): running, or blocked in any other operation. `recv` has two switches,
  its own in `loop_switch` and before that, if the loop is in `L_STOP` with a
  living greenlet, the one in which `start_loop` runs the loop.
* Everything else a greenlet can be resumed by is an action of the environment:
  an exception thrown into it (`throw`), a switch made by any other code
  (`switch`), or the end of the loop's greenlet (`ended`), whose parent goes on.
* The loop may be stopped and run again by other code at any time (`stop`, `run`).

The last four fields of `St` are history and no function reads them.
-/

namespace Jega.Channel

/-- A channel, by address. -/
abbrev Cid := Nat

/-- A `channel_msg_t`, by address. -/
abbrev Mid := Nat

structure channel_msg_t where
  addr : Mid
  caller : Gid
  data : PyObj
deriving DecidableEq, Repr

/-- `max` is the fixed capacity of `pendings`. -/
structure ChannelObject where
  waiters : Finset Gid
  pendings : List channel_msg_t
  max : Nat
  handle : Option Hid
  bufsize : Nat

/-- `create_channel`: an unbuffered channel still gets a queue of one place. -/
def create_channel (bufsize : Nat) : ChannelObject :=
  ⟨∅, [], if bufsize = 0 then 1 else bufsize, none, bufsize⟩

/-- What the loop calls: a channel's `_notify`, or anything else. -/
inductive Callback where
  | notify (c : Cid)
  | other (n : Nat)
deriving DecidableEq, Repr

/-- Where a greenlet is suspended, as far as channels are concerned. -/
inductive Where where
  | other
  /-- In the switch of `run_on_main_task`, into which `start_loop` led. -/
  | start (c : Cid)
  | recv (c : Cid)
  | send (c : Cid) (msg : Mid)
deriving DecidableEq, Repr

/-- A `ChannelObject_notify` suspended in one of its two switches: into the
waiter `o` with the message, or back into the caller of the message. -/
inductive Frame where
  | delivering (c : Cid) (o : Gid) (msg : channel_msg_t)
  | returning (c : Cid) (o : Gid) (msg : channel_msg_t)
deriving DecidableEq, Repr

/-- The channel the call is for. -/
def Frame.chan : Frame → Cid
  | .delivering c _ _ => c
  | .returning c _ _ => c

/-- One message given to one greenlet; `atRecv` tells whether the greenlet was
suspended in `recv` on the message's channel at that moment. -/
structure Delivery where
  msg : channel_msg_t
  taker : Gid
  atRecv : Bool
deriving DecidableEq, Repr

structure St where
  chans : Cid → ChannelObject
  loop : LoopObject Callback
  /-- The loop's greenlet is. -/
  alive : Bool
  loc : Gid → Where
  dead : Gid → Bool
  frame : Option Frame
  nextMsg : Mid
  /-- The messages of the accepted sends, in order. -/
  accepted : Cid → List channel_msg_t
  /-- The messages handed out, in order. -/
  handed : Cid → List Delivery
  /-- The values `recv` returned. -/
  returned : Cid → List PyObj
  /-- The greenlets whose last `recv` ended other than by a message for them. -/
  left : Cid → Finset Gid

/-- Fresh channels of the given buffer sizes on an idle loop. -/
def init (bufsize : Cid → Nat) : St where
  chans := fun c => create_channel (bufsize c)
  loop := LoopObject.init Callback
  alive := true
  loc := fun _ => .other
  dead := fun _ => false
  frame := none
  nextMsg := 0
  accepted := fun _ => []
  handed := fun _ => []
  returned := fun _ => []
  left := fun _ => ∅

/-! ## Switches -/

/-- Set `state` of the loop. -/
def set_state (s : St) (state : loop_state) : St :=
  { s with loop := { s.loop with state := state } }

/-- `run_loop`: a dead greenlet of the loop is replaced, and the new one switches
back first of all. -/
def run_loop (s : St) : St := { set_state s .L_RUNNING with alive := true }

/-- Note that a `recv` of `g` on `c` ended without a message. -/
def note_left (s : St) (g : Gid) (c : Cid) : St :=
  { s with left := Function.update s.left c (insert g (s.left c)) }

/-- `loop_switch` at the end of `recv`. -/
def loop_switch (s : St) (g : Gid) (c : Cid) : St :=
  if s.alive then { s with loc := Function.update s.loc g (.recv c) }
  else
    -- "warning !! loop is dead", and `recv` returns at once
    note_left
      { run_loop s with
        loc := Function.update s.loc g .other
        returned := Function.update s.returned c (s.returned c ++ [.None]) } g c

/-- What `g` does when it is resumed: `start_loop` drops the value and `recv` goes
on to its own switch, which returns the value; `send` returns `None`, and a throw
ends any of them. -/
def resume (s : St) (g : Gid) (r : Resumption) : St :=
  match s.loc g with
  | .other => s
  | .start c =>
    match r with
    | .value _ => loop_switch s g c
    | .throw _ => { s with loc := Function.update s.loc g .other }
  | .recv c =>
    { s with
      loc := Function.update s.loc g .other
      returned :=
        match r with
        | .value v => Function.update s.returned c (s.returned c ++ [v])
        | .throw _ => s.returned }
  | .send _ _ => { s with loc := Function.update s.loc g .other }

/-- Note that a `recv` of `g` ends without a message when it is resumed. -/
def leave (s : St) (g : Gid) (r : Resumption) : St :=
  match s.loc g, r with
  | .recv c, _ => note_left s g c
  | .start c, .throw _ => note_left s g c
  | _, _ => s

/-- A switch into `o` lands in `o`, or in the nearest living ancestor of a dead
`o`. -/
def lands (s : St) (o t : Gid) : Bool :=
  t = o && !s.dead o || s.dead o && !s.dead t

/-! ## The operations -/

/-- `loop_schedule_call` of `_notify`, the new handle kept in the channel. -/
def schedule_notify (s : St) (c : Cid) : St :=
  let scheduled := s.loop.loop_schedule_call 0 (some (.notify c)) none
  { s with
    loop := scheduled.1
    chans := Function.update s.chans c { s.chans c with handle := some scheduled.2 } }

/-- `notify_to_loop`: a handle that was fired is replaced, one that was not is
taken to be queued still. -/
def notify_to_loop (s : St) (c : Cid) : St :=
  match (s.chans c).handle with
  | none => schedule_notify s c
  | some handle => if (s.loop.handles handle).called then schedule_notify s c else s

/-- `queue_push_noext` on `pendings`; a full queue refuses. -/
def queue_push_noext (s : St) (c : Cid) (msg : channel_msg_t) : Option St :=
  if (s.chans c).pendings.length < (s.chans c).max then
    some
      { s with
        chans := Function.update s.chans c
          { s.chans c with pendings := (s.chans c).pendings ++ [msg] }
        accepted := Function.update s.accepted c (s.accepted c ++ [msg]) }
  else none

/-- The message `send` makes. -/
def make_chan_msg (s : St) (caller : Gid) (data : PyObj) : channel_msg_t :=
  ⟨s.nextMsg, caller, data⟩

/-- `ChannelObject_send`. -/
def ChannelObject_send (s : St) (g : Gid) (c : Cid) (data : PyObj) : St :=
  let msg := make_chan_msg s g data
  let s := { s with nextMsg := s.nextMsg + 1 }
  match queue_push_noext s c msg with
  | none => s -- "channel buffer overflow"
  | some s =>
    -- the queue holds this message, at least
    let s := if (s.chans c).pendings.length > 0 then notify_to_loop s c else s
    -- "check bufferd channel"
    if (s.chans c).pendings.length ≥ (s.chans c).bufsize then
      -- `loop_switch` returns at once from a dead loop
      if s.alive then { s with loc := Function.update s.loc g (.send c msg.addr) } else run_loop s
    else s

/-- The caller of `recv` is added to the waiters. -/
def add_waiter (s : St) (g : Gid) (c : Cid) : St :=
  { s with
    chans := Function.update s.chans c { s.chans c with waiters := insert g (s.chans c).waiters }
    left := Function.update s.left c ((s.left c).erase g) }

/-- `ChannelObject_recv` up to its first switch; `started` is whether `start_loop`
does not raise before that. `loop_autostart` is 1 all along. -/
def ChannelObject_recv (s : St) (g : Gid) (c : Cid) (started : Bool) : St :=
  let s := add_waiter s g c
  -- `start_loop` failed, and the entry stays in the set
  if !started then note_left s g c
  else if s.alive ∧ s.loop.state = .L_STOP then
    { run_loop s with loc := Function.update s.loc g (.start c) }
  else loop_switch (if s.alive then s else run_loop s) g c

/-- The waiter `o` and the message `msg` leave the channel, and `t` is about to
be resumed with the message. -/
def hand_out (s : St) (c : Cid) (o t : Gid) (msg : channel_msg_t) (rest : List channel_msg_t) :
    St :=
  { s with
    chans := Function.update s.chans c
      { s.chans c with waiters := (s.chans c).waiters.erase o, pendings := rest }
    frame := some (.delivering c o msg)
    handed := Function.update s.handed c (s.handed c ++ [⟨msg, t, s.loc t = .recv c⟩])
    left := Function.update (leave s t (.value msg.data)).left c
      (((leave s t (.value msg.data)).left c).erase o) }

/-- One round of the loop of `ChannelObject_notify`, up to the switch into the
waiter: `pick` is the waiter `PySet_Pop` takes, `t` where the switch lands. -/
def notify_round (s : St) (c : Cid) (pick t : Gid) : Option St :=
  if (s.chans c).pendings = [] ∧ (s.chans c).waiters ≠ ∅ then
    some { s with frame := none } -- raises "detect racde condition"
  else if (s.chans c).waiters = ∅ then some { s with frame := none }
  else if pick ∈ (s.chans c).waiters ∧ lands s pick t then
    match (s.chans c).pendings with
    | [] => none
    -- the switch carries the message
    | msg :: rest => some (resume (hand_out s c pick t msg rest) t (.value msg.data))
  else none

/-- `ChannelObject_notify`. -/
def ChannelObject_notify (s : St) (c : Cid) (pick t : Gid) : Option St :=
  if (s.chans c).pendings = [] then some s else notify_round s c pick t

/-! ## The system -/

inductive Act where
  | send (g : Gid) (c : Cid) (data : PyObj)
  | recv (g : Gid) (c : Cid) (started : Bool)
  /-- The loop fires the head of its queue. -/
  | fire (pick t : Gid)
  /-- The loop's greenlet is resumed inside `ChannelObject_notify`. -/
  | notify (pick t : Gid)
  /-- An exception is thrown into a suspended greenlet. -/
  | throw (g : Gid) (e : Exc)
  /-- Some other code switches into a greenlet. -/
  | switch (g : Gid) (v : PyObj)
  /-- A greenlet ends. -/
  | die (g : Gid)
  /-- The loop's greenlet ends, with an error or not, and its parent goes on. -/
  | ended (parent : Gid) (error : Option Exc)
  /-- Some other code runs the loop. -/
  | run
  /-- Some other code stops it. -/
  | stop
  /-- Some other code schedules a call. -/
  | call_soon (n : Nat)
deriving DecidableEq, Repr

/-- A greenlet that can call into a channel. -/
def free (s : St) (g : Gid) : Bool := s.loc g = .other && !s.dead g

/-- How the parent of the loop's greenlet is resumed when that ends. -/
def outcome : Option Exc → Resumption
  | none => .value .None
  | some e => .throw e

/-- The loop's greenlet has ended. -/
def end_loop (s : St) : St := { set_state s .L_STOP with alive := false }

def step (s : St) : Act → Option St
  | .send g c data => if free s g then some (ChannelObject_send s g c data) else none
  | .recv g c started => if free s g then some (ChannelObject_recv s g c started) else none
  | .fire pick t =>
    if s.alive ∧ s.frame = none then
      match s.loop.fire_pendings_next s.dead with
      | none => none
      | some (loop, .call (.notify c)) => ChannelObject_notify { s with loop := loop } c pick t
      | some (loop, _) => some { s with loop := loop }
    else none
  | .notify pick t =>
    if s.alive then
      match s.frame with
      | none => none
      | some (.delivering c o msg) =>
        if lands s msg.caller t then
          some (resume (leave { s with frame := some (.returning c o msg) } t
            (.value .loop_switch_value)) t (.value .loop_switch_value))
        else none
      | some (.returning c _ _) => notify_round s c pick t
    else none
  | .throw g e => if s.dead g then none else some (resume (leave s g (.throw e)) g (.throw e))
  | .switch g v => if s.dead g then none else some (resume (leave s g (.value v)) g (.value v))
  | .die g => if free s g then some { s with dead := Function.update s.dead g true } else none
  | .ended parent error =>
    -- no call of `_notify` is left in the greenlet
    if s.alive ∧ s.frame = none ∧ !s.dead parent then
      some (resume (leave (end_loop s) parent (outcome error)) parent (outcome error))
    else none
  | .run => some (run_loop s)
  | .stop => some (set_state s .L_STOP)
  | .call_soon n =>
    some { s with loop := (s.loop.loop_schedule_call 0 (some (.other n)) none).1 }

end Jega.Channel
