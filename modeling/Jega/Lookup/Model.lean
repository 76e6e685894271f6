import Jega.Greenlet
import Mathlib.Logic.Function.Basic

/-!
# Jega.Lookup.Model — DNS lookups of `lookup.c`

Any number of greenlets that look up names over one c-ares channel. A lookup
allocates a `lookup_ctx_t`, hands it to c-ares together with a callback, and
waits. c-ares answers a query at once, or later from `ares_process_fd`, or drops
it in `ares_destroy`; an answer is an input of the step.

The loop's greenlet is alive and not in `L_STOP` while c-ares is called: `state_cb`
calls `add_event`, whose `ready_trampoline` would run a stopped loop inside of that
call. What it registers is in `Jega.Lookup.Interest`.

`error` is Python's error indicator, which belongs to the thread: a switch
carries it into the other greenlet, and other code may set or clear it.
`asked` and `ran` are history and no function reads them.
-/

namespace Jega.Lookup

/-- A `lookup_ctx_t`, by address. -/
abbrev Addr := Nat

/-- A status of c-ares. -/
abbrev Status := Nat

abbrev ARES_SUCCESS : Status := 0

abbrev ARES_EDESTRUCTION : Status := 16

abbrev ARES_ECANCELLED : Status := 24

abbrev AF_INET : Nat := 2

abbrev AF_INET6 : Nat := 10

/-- The addresses are in the text that `inet_ntop` makes of them. There is a first
one. -/
structure hostent where
  h_name : String
  h_aliases : List String
  h_addrtype : Nat
  h_addr : String
  h_addrs : List String
deriving DecidableEq, Repr

/-- What c-ares gives to a callback: `host` to those of host queries, `name` and
`service` to the others. -/
structure Answer where
  status : Status
  host : Option hostent
  name : Option String
  service : Option String
deriving DecidableEq, Repr

/-- The result of a lookup. -/
inductive Obj where
  | str (s : String)
  | host (name : String) (aliases addrs : List String)
  | nameinfo (name : String) (service : Option String)
  /-- The bytes of an address. -/
  | data (addr : String)
deriving DecidableEq, Repr

structure lookup_ctx_t where
  result : Option Obj
  family : Nat
  greenlet : Gid
  retval : Int
  called : Bool
deriving DecidableEq, Repr

inductive Cell where
  | freed
  | ctx (c : lookup_ctx_t)
deriving DecidableEq, Repr

inductive Callback where
  | gethostbyname_cb
  | gethostbyname_ex_cb
  | getnameinfo_cb
  | getnameinfo_ex_cb
  | getsockaddr_cb
  | gethostbyaddr_cb
deriving DecidableEq, Repr

/-- A query that c-ares has not answered. -/
structure Query where
  callback : Callback
  arg : Addr
deriving DecidableEq, Repr

structure St where
  mem : Addr → Cell
  next : Addr
  error : Bool
  /-- The greenlets suspended in `wait_lookup`, with its `ctx`. -/
  waiting : Gid → Option Addr
  channel : List Query
  /-- What the lookups of a greenlet returned, `none` for `NULL`. -/
  returned : Gid → List (Option Obj)
  /-- A query was made with this `ctx`. -/
  asked : Addr → Bool
  /-- The callback of this `ctx` was called. -/
  ran : Addr → Bool

def init : St where
  mem := fun _ => .freed
  next := 0
  error := false
  waiting := fun _ => none
  channel := []
  returned := fun _ => []
  asked := fun _ => false
  ran := fun _ => false

/-! ## Waiting -/

def called (s : St) (ctx : Addr) : Bool :=
  match s.mem ctx with
  | .freed => false
  | .ctx c => c.called

def result (s : St) (ctx : Addr) : Option Obj :=
  match s.mem ctx with
  | .freed => none
  | .ctx c => c.result

/-- The end of `wait_lookup`, with `dealloc_ctx`. -/
def finish (s : St) (g : Gid) (ctx : Addr) : St :=
  { s with
    mem := Function.update s.mem ctx .freed
    waiting := Function.update s.waiting g none
    returned := Function.update s.returned g (s.returned g ++ [result s ctx]) }

/-- `wait_lookup` at the test of its `while`. The second `loop_switch` of
`wait_lookup` is not reached: `NULL` comes with an error. -/
def wait_lookup (s : St) (g : Gid) (ctx : Addr) : St :=
  if called s ctx || s.error then finish s g ctx
  else { s with waiting := Function.update s.waiting g (some ctx) }

/-- A switch into a greenlet. Elsewhere than in `wait_lookup` it does nothing
here, and so does the switch of a greenlet to itself. -/
def greenlet_switch (s : St) (g : Gid) : St :=
  match s.waiting g with
  | none => s
  | some ctx => wait_lookup s g ctx

/-- An exception is thrown into a greenlet, and `loop_switch` returns `NULL`. -/
def greenlet_throw (s : St) (g : Gid) : St :=
  match s.waiting g with
  | none => s
  | some ctx => finish { s with error := true } g ctx

/-! ## Callbacks -/

/-- `gethost_data`; `none` with an error set. -/
def gethost_data (host : hostent) : Option Obj :=
  if host.h_addrtype = AF_INET ∨ host.h_addrtype = AF_INET6 then
    some (.host host.h_name (host.h_aliases.filter (· ≠ host.h_name)) (host.h_addr :: host.h_addrs))
  else none

/-- The channel or the query is on its way out, and the callbacks do nothing. -/
def Answer.Dropped (a : Answer) : Prop :=
  a.status = ARES_ECANCELLED ∨ a.status = ARES_EDESTRUCTION

instance (a : Answer) : Decidable a.Dropped := inferInstanceAs (Decidable (_ ∨ _))

/-- What the six callbacks share. `answer` is what c-ares gives to a successful
query, and `build` makes the result of it: `none` where it sets an error, `some
none` where there is no result. -/
def callback {α : Type} (answer : Answer → Option α)
    (build : lookup_ctx_t → α → Option (Option Obj)) (s : St) (arg : Addr) (a : Answer) :
    Option St :=
  let s := { s with ran := Function.update s.ran arg true }
  if a.Dropped then some s
  else
    match s.mem arg with
    -- there is no telling what a freed `ctx` reads
    | .freed => none
    | .ctx c =>
      let c := { c with called := true }
      match if a.status = ARES_SUCCESS then answer a else none with
      | none =>
        let c := { c with retval := -1 }
        some (greenlet_switch
          { s with mem := Function.update s.mem arg (.ctx c), error := true } c.greenlet)
      | some x =>
        match build c x with
        | none =>
          some (greenlet_switch
            { s with mem := Function.update s.mem arg (.ctx c), error := true } c.greenlet)
        | some obj =>
          let c := { c with result := obj }
          some (greenlet_switch
            { s with mem := Function.update s.mem arg (.ctx c) } c.greenlet)

def gethostbyname_cb : St → Addr → Answer → Option St :=
  callback Answer.host fun _ host => some (some (.str host.h_addr))

/-- `ctx->greenlet`, which it looks at, is never `NULL`. -/
def gethostbyname_ex_cb : St → Addr → Answer → Option St :=
  callback Answer.host fun _ host => (gethost_data host).map some

def getnameinfo_cb : St → Addr → Answer → Option St :=
  callback Answer.name fun _ name => some (some (.str name))

def getnameinfo_ex_cb : St → Addr → Answer → Option St :=
  callback (fun a => a.name.map fun name => (name, a.service))
    fun _ names => some (some (.nameinfo names.1 names.2))

def getsockaddr_cb : St → Addr → Answer → Option St :=
  callback Answer.host fun ctx host =>
    -- other families have no result, and no error
    if ctx.family = AF_INET ∨ ctx.family = AF_INET6 then some (some (.data host.h_addr))
    else some none

def gethostbyaddr_cb : St → Addr → Answer → Option St :=
  callback Answer.host fun _ host => (gethost_data host).map some

def Callback.call : Callback → St → Addr → Answer → Option St
  | .gethostbyname_cb => Lookup.gethostbyname_cb
  | .gethostbyname_ex_cb => Lookup.gethostbyname_ex_cb
  | .getnameinfo_cb => Lookup.getnameinfo_cb
  | .getnameinfo_ex_cb => Lookup.getnameinfo_ex_cb
  | .getsockaddr_cb => Lookup.getsockaddr_cb
  | .gethostbyaddr_cb => Lookup.gethostbyaddr_cb

/-! ## Lookups -/

/-- `init_ctx`; the new `ctx` is at `next`. -/
def init_ctx (s : St) (g : Gid) (family : Nat) : St :=
  { s with
    mem := Function.update s.mem s.next (.ctx ⟨none, family, g, 1, false⟩)
    next := s.next + 1 }

/-- A function of c-ares takes a query, and may answer it at once. -/
def ares_query (s : St) (cb : Callback) (ctx : Addr) (answer : Option Answer) : Option St :=
  let s := { s with asked := Function.update s.asked ctx true }
  match answer with
  | none => some { s with channel := s.channel ++ [⟨cb, ctx⟩] }
  | some a => cb.call s ctx a

/-- A query, and the wait for it. -/
def lookup (cb : Callback) (family : Nat) (s : St) (g : Gid) (answer : Option Answer) :
    Option St :=
  (ares_query (init_ctx s g family) cb s.next answer).map fun t => wait_lookup t g s.next

def async_gethostbyname : St → Gid → Option Answer → Option St := lookup .gethostbyname_cb 0

def async_gethostbyname_ex : St → Gid → Option Answer → Option St := lookup .gethostbyname_ex_cb 0

/-- `is_address` tells whether `ares_inet_pton` takes the text. -/
def async_gethostbyaddr (s : St) (g : Gid) (is_address : Bool) (answer : Option Answer) :
    Option St :=
  if is_address then lookup .gethostbyaddr_cb 0 s g answer
  else
    -- `PyMem_Free` of a `ctx` that c-ares does not know
    let t := init_ctx s g 0
    some
      { t with
        mem := Function.update t.mem s.next .freed
        returned := Function.update t.returned g (t.returned g ++ [none]) }

def async_getsockaddr (s : St) (g : Gid) (family : Nat) (answer : Option Answer) : Option St :=
  lookup .getsockaddr_cb family s g answer

def async_getnameinfo : St → Gid → Option Answer → Option St := lookup .getnameinfo_cb 0

/-- `NI_NUMERICHOST`, `NI_NUMERICSERV`, `NI_NOFQDN`, `NI_NAMEREQD` and `NI_DGRAM`,
each with the flag of c-ares. -/
def flag_map : List (UInt32 × UInt32) := [(1, 2), (2, 8), (4, 1), (8, 4), (16, 16)]

/-- The loop of `convert_nameinfo_flag`. -/
def convert_flags (flag : UInt32) : List (UInt32 × UInt32) → UInt32 → UInt32 → Option UInt32
  | [], _, _ => none
  | n :: ns, tmp, nameflg =>
    let hit := n.1 &&& flag ≠ 0
    let tmp := if hit then tmp &&& ~~~ n.1 else tmp
    let nameflg := if hit then nameflg ||| n.2 else nameflg
    if tmp = 0 then some nameflg else convert_flags flag ns tmp nameflg

/-- `convert_nameinfo_flag`, from `ARES_NI_LOOKUPHOST | ARES_NI_LOOKUPSERVICE`;
`none` with an error set. -/
def convert_nameinfo_flag (flag : UInt32) : Option UInt32 := convert_flags flag flag_map flag 768

def async_getnameinfo_ex (s : St) (g : Gid) (flag : UInt32) (answer : Option Answer) : Option St :=
  match convert_nameinfo_flag flag with
  | some _ => lookup .getnameinfo_ex_cb 0 s g answer
  | none =>
    -- the `ctx` is left behind
    let t := init_ctx s g 0
    some { t with error := true, returned := Function.update t.returned g (t.returned g ++ [none]) }

/-! ## The channel -/

/-- `ares_process_fd` answers a query. -/
def ares_process_fd (s : St) (arg : Addr) (a : Answer) : Option St :=
  (s.channel.find? fun q => q.arg = arg).bind fun q =>
    q.callback.call { s with channel := s.channel.filter fun q => q.arg ≠ arg } arg a

/-- The callbacks that `ares_destroy` calls. -/
def destroy_queries : List Query → St → Option St
  | [], s => some s
  | q :: qs, s =>
    (q.callback.call s q.arg ⟨ARES_EDESTRUCTION, none, none, none⟩).bind (destroy_queries qs)

/-- `ares_destroy` and `init_channel`. -/
def destroy_channel (s : St) : Option St := destroy_queries s.channel { s with channel := [] }

/-- `process_callback` with `PICOEV_ERR`; there is nothing to process on the new
channel. -/
def process_callback_err (s : St) : Option St := destroy_channel { s with error := true }

/-! ## The system -/

inductive Act where
  | gethostbyname (g : Gid) (answer : Option Answer)
  | gethostbyname_ex (g : Gid) (answer : Option Answer)
  | gethostbyaddr (g : Gid) (is_address : Bool) (answer : Option Answer)
  | getsockaddr (g : Gid) (family : Nat) (answer : Option Answer)
  | getnameinfo (g : Gid) (answer : Option Answer)
  | getnameinfo_ex (g : Gid) (flag : UInt32) (answer : Option Answer)
  /-- A query is answered, timed out or cancelled. -/
  | process_fd (arg : Addr) (a : Answer)
  | picoev_err
  | throw (g : Gid)
  /-- Any other switch into a greenlet. -/
  | switch (g : Gid)
  /-- Other code sets or clears the error indicator. -/
  | set_error (error : Bool)
deriving DecidableEq, Repr

/-- The greenlet that makes the call is not suspended in another one. -/
def calling (s : St) (g : Gid) (t : Option St) : Option St := if s.waiting g = none then t else none

def step (s : St) : Act → Option St
  | .gethostbyname g answer => calling s g (async_gethostbyname s g answer)
  | .gethostbyname_ex g answer => calling s g (async_gethostbyname_ex s g answer)
  | .gethostbyaddr g is_address answer =>
    calling s g (async_gethostbyaddr s g is_address answer)
  | .getsockaddr g family answer => calling s g (async_getsockaddr s g family answer)
  | .getnameinfo g answer => calling s g (async_getnameinfo s g answer)
  | .getnameinfo_ex g flag answer => calling s g (async_getnameinfo_ex s g flag answer)
  | .process_fd arg a => ares_process_fd s arg a
  | .picoev_err => process_callback_err s
  | .throw g => some (greenlet_throw s g)
  | .switch g => some (greenlet_switch s g)
  | .set_error error => some { s with error := error }

end Jega.Lookup
