/-
# Calls and what they stand for

A call from outside (`Foreign.Call`) stands for a method of the library on what its handles
resolve to (`Foreign.Method`).  The method has a result, and an effect on the world, which is
that of an act or nothing (`Method.act?`).  `Surface.serve` carries a call out in this way: it
looks the handles up and at the pointers, runs the method, lends out a handle or takes one
back, and tells the result.  A call whose handles do not resolve, or that is not given a
pointer which it needs, is refused and does nothing (`Surface.resolve`).

As long as the isolates behind handles are there (`Surface.Hosts`), this is what the calls do
(`Hosts.call_eq`).
-/

import EngineHandles.Foreign.Surface
import EngineHandles.Proofs.Lending.Table
import EngineHandles.Proofs.World.Run

namespace EngineHandles

namespace World

variable {w : World} {i : IsolateId} {iso : Isolate}

/-- An isolate that is there is entered. -/
theorem exists_enter? (hiso : w.isolate? i = some iso) (t : ThreadKey) :
    ∃ p, w.enter? t i = some p := by
  rw [enter?, perform?, hiso]
  exact ⟨_, rfl⟩

/-- An isolate that is there answers an exit. -/
theorem exists_exit? (hiso : w.isolate? i = some iso) (t : ThreadKey) :
    ∃ p, w.exit? t i = some p := by
  rw [exit?, perform?, hiso]
  dsimp only
  split
  · next hn => cases hn
  · exact ⟨_, rfl⟩
  · exact ⟨_, rfl⟩

end World

namespace Foreign

/-- A call from outside.  Of a pointer it matters whether it is given. -/
inductive Call where
  | configDefault (out : Bool)
  | create (config : Option Config) (out : Bool)
  | destroy (isolate : UInt64)
  | enter (thread : ThreadKey) (isolate : UInt64)
  | exit (thread : ThreadKey) (isolate : UInt64)
  | containsThreads (isolate : UInt64) (out : Bool)
  | stats (isolate : UInt64) (out : Bool)
  | collect (thread : ThreadKey) (isolate : UInt64) (out : Bool)
  | objectNew (payload : UInt64) (out : Bool)
  | objectRelease (object : UInt64)
  | objectPayload (object : UInt64) (out : Bool)
  | objectRefcount (object : UInt64) (strongOut weakOut : Bool)
  | objectIsDestroyed (object : UInt64) (out : Bool)
  | persistentNew (thread : ThreadKey) (isolate object : UInt64) (out : Bool)
  | persistentDispose (thread : ThreadKey) (isolate slot : UInt64)
  | persistentMakeWeak (thread : ThreadKey) (isolate slot param : UInt64)
      (callback : Option Callback)
  | persistentClearWeak (thread : ThreadKey) (isolate slot : UInt64)
  | persistentIsWeak (isolate slot : UInt64) (out : Bool)
  | persistentIsNearDeath (isolate slot : UInt64) (out : Bool)
  | scopeOpen (thread : ThreadKey) (isolate : UInt64) (out : Bool)
  | scopeClose (thread : ThreadKey) (isolate scope : UInt64)
  | scopeEscape (thread : ThreadKey) (isolate scope slot : UInt64) (out : Bool)
  | localNew (thread : ThreadKey) (isolate object : UInt64)
  | localGet (thread : ThreadKey) (isolate scope slot : UInt64) (out : Bool)

/-- What a call writes through a pointer. -/
inductive Written where
  | config (config : Config)
  | word (word : UInt64)
  | flag (flag : Bool)
  | stats (stats : IsolateStats)
  | report (report : SweepReport)
  | strong (tally : UInt32)
  | weak (tally : UInt32)

/-- What a call answers: a status and what it wrote, or the slot of a new local. -/
inductive Response where
  | status (status : Status) (written : List Written)
  | slot (slot : SlotRef)

namespace Surface

/-- The answer of a call that writes through one pointer. -/
def ofReply {α : Type} (f : α → Written) (r : Reply α) : Response × Surface :=
  (.status r.1 (r.2.1.map f).toList, r.2.2)

/-- The answer of a call that writes nothing. -/
def ofCommand (r : Status × Surface) : Response × Surface := (.status r.1 [], r.2)

/-- Carries out a call. -/
def call (c : Surface) : Call → Response × Surface
  | .configDefault out => (.status (configDefault out).1 ((configDefault out).2.map .config).toList, c)
  | .create config out => ofReply .word (c.create config out)
  | .destroy isolate => ofCommand (c.destroy isolate)
  | .enter t isolate => ofCommand (c.enter t isolate)
  | .exit t isolate => ofCommand (c.exit t isolate)
  | .containsThreads isolate out => ofReply .flag (c.containsThreads isolate out)
  | .stats isolate out => ofReply .stats (c.stats isolate out)
  | .collect _ isolate out => ofReply .report (c.collect isolate out)
  | .objectNew payload out => ofReply .word (c.objectNew payload out)
  | .objectRelease object => ofCommand (c.objectRelease object)
  | .objectPayload object out => ofReply .word (c.objectPayload object out)
  | .objectRefcount object strongOut weakOut =>
    let (s, strong, weak, c') := c.objectRefcount object strongOut weakOut
    (.status s ((strong.map .strong).toList ++ (weak.map .weak).toList), c')
  | .objectIsDestroyed object out => ofReply .flag (c.objectIsDestroyed object out)
  | .persistentNew t isolate object out => ofReply .word (c.persistentNew t isolate object out)
  | .persistentDispose t isolate slot => ofCommand (c.persistentDispose t isolate slot)
  | .persistentMakeWeak t isolate slot param callback =>
    ofCommand (c.persistentMakeWeak t isolate slot param callback)
  | .persistentClearWeak t isolate slot => ofCommand (c.persistentClearWeak t isolate slot)
  | .persistentIsWeak isolate slot out => ofReply .flag (c.persistentIsWeak isolate slot out)
  | .persistentIsNearDeath isolate slot out =>
    ofReply .flag (c.persistentIsNearDeath isolate slot out)
  | .scopeOpen t isolate out => ofReply .word (c.scopeOpen t isolate out)
  | .scopeClose t isolate scope => ofCommand (c.scopeClose t isolate scope)
  | .scopeEscape t isolate scope slot out => ofReply .word (c.scopeEscape t isolate scope slot out)
  | .localNew t isolate object => let (s, c') := c.localNew t isolate object; (.slot s, c')
  | .localGet t isolate scope slot out => ofReply .word (c.localGet t isolate scope slot out)

end Surface

/-! ### Methods -/

/-- A method of the library, on values. -/
inductive Method where
  | defaultConfig
  | newIsolate (config : IsolateConfig)
  /-- The caller gives up its reference to an isolate. -/
  | dropIsolate (isolate : IsolateId)
  | enter (thread : ThreadKey) (isolate : IsolateId)
  | exit (thread : ThreadKey) (isolate : IsolateId)
  | request (thread : ThreadKey) (isolate : IsolateId) (request : Request)
  | containsThreads (isolate : IsolateId)
  | stats (isolate : IsolateId)
  | isWeak (handle : PersistentHandle)
  | isNearDeath (handle : PersistentHandle)
  | newObject (payload : UInt64)
  /-- The caller forgets an object, to which it has no reference. -/
  | forget (object : ObjectId)
  | payload (object : ObjectId)
  | tallies (object : ObjectId)
  | isDestroyed (object : ObjectId)

/-- The result of a method. -/
inductive Result where
  | done
  | config (config : Config)
  | made (isolate : Except ConfigError IsolateId)
  | answer (answer : Except HandleError Answer)
  | flag (flag : Bool)
  | stats (stats : IsolateStats)
  | object (object : ObjectId)
  | payload (payload : Option UInt64)
  | tallies (tally : Tally)

namespace Method

/-- The act that a method is, if it changes anything. -/
def act? : Method → Option Act
  | .newIsolate config => some (.newIsolate config)
  | .dropIsolate i => some (.releaseHost i)
  | .enter t i => some (.enter t i)
  | .exit t i => some (.exit t i)
  | .request t i r => some (.request t i r)
  | .newObject v => some (.make { datum := .word v })
  | .defaultConfig | .containsThreads _ | .stats _ | .isWeak _ | .isNearDeath _ | .forget _
  | .payload _ | .tallies _ | .isDestroyed _ => none

/-- What a method leaves behind. -/
def effect (m : Method) (w : World) : World := (m.act?.map w.act).getD w

/-- The result of a method, if its isolate is there. -/
def result? (w : World) : Method → Option Result
  | .defaultConfig => some (.config {})
  | .newIsolate config => some (.made (w.newIsolate config).1)
  | .dropIsolate _ | .forget _ => some .done
  | .enter t i => (w.enter? t i).map fun _ => .done
  | .exit t i => (w.exit? t i).map fun r => .answer (r.1.map fun _ => .done)
  | .request t i r => (w.isolate? i).map fun iso => .answer (r.serve t iso w.shared).1
  | .containsThreads i => (w.isolate? i).map fun iso => .flag (!iso.registry.isEmpty)
  | .stats i => (w.isolate? i).map fun iso => .stats iso.stats
  | .isWeak p => (w.isolate? p.isolate).map fun iso => .flag (iso.isWeak p)
  | .isNearDeath p => (w.isolate? p.isolate).map fun iso => .flag (iso.isNearDeath p w.heap)
  | .newObject v => some (.object (w.heap.make { datum := .word v }).1)
  | .payload o => some (.payload (w.heap.cell o).word?)
  | .tallies o => some (.tallies (w.heap.cell o).tally)
  | .isDestroyed o => some (.flag (w.heap.cell o).isDestroyed)

end Method

namespace Result

/-- The status for a result. -/
def status : Result → Status
  | .made (.error e) => e.status
  | .answer a => .ofExcept a
  | .payload none => .invalidHandle
  | .done | .config _ | .made (.ok _) | .flag _ | .stats _ | .object _ | .payload (some _)
  | .tallies _ => .ok

/-- What is written for a result; isolates and objects are told by a handle. -/
def written (handle : UInt64) : Result → List Written
  | .done => []
  | .config c => [.config c]
  | .made (.error _) => []
  | .made (.ok _) | .object _ => [.word handle]
  | .answer (.error _) => []
  | .answer (.ok a) =>
    match a with
    | .done | .added _ _ => []
    | .scope s => [.word s.raw]
    | .object _ => [.word handle]
    | .moved l => [.word l.slot.raw]
    | .made p => [.word p.slot.raw]
    | .swept report => [.report report]
  | .flag b => [.flag b]
  | .stats s => [.stats s]
  | .payload p => (p.map .word).toList
  | .tallies t => [.strong t.strong, .weak t.weak]

end Result

/-! ### How a call is carried out -/

/-- The pointer that a call has to be given: none, or one at which it looks before the handles,
or after them. -/
inductive Need where
  | nothing
  | first (given : Bool)
  | last (given : Bool)

/-- Whether the pointer is given. -/
def Need.isMet : Need → Bool
  | .nothing => true
  | .first given | .last given => given

theorem Need.ne_of_isMet {n : Need} (hmet : n.isMet = true) : n ≠ .first false := by
  rintro rfl
  cases hmet

namespace Call

/-- The pointer that a call needs. -/
def need : Call → Need
  | .configDefault out | .create _ out | .objectNew _ out | .persistentNew _ _ _ out
  | .scopeOpen _ _ out | .scopeEscape _ _ _ _ out | .localGet _ _ _ _ out => .first out
  | .containsThreads _ out | .stats _ out | .objectPayload _ out | .objectIsDestroyed _ out
  | .persistentIsWeak _ _ out | .persistentIsNearDeath _ _ out => .last out
  | .destroy _ | .enter _ _ | .exit _ _ | .collect _ _ _ | .objectRelease _ | .objectRefcount _ _ _
  | .persistentDispose _ _ _ | .persistentMakeWeak _ _ _ _ _ | .persistentClearWeak _ _ _
  | .scopeClose _ _ _ | .localNew _ _ _ => .nothing

/-- The method that a call stands for, if its handles resolve. -/
def method? (c : Surface) : Call → Option Method
  | .configDefault _ => some .defaultConfig
  | .create config _ => some (.newIsolate (config.getD {}).toIsolateConfig)
  | .destroy isolate => (c.isolates.get? isolate).map .dropIsolate
  | .enter t isolate => (c.isolates.get? isolate).map (.enter t)
  | .exit t isolate => (c.isolates.get? isolate).map (.exit t)
  | .containsThreads isolate _ => (c.isolates.get? isolate).map .containsThreads
  | .stats isolate _ => (c.isolates.get? isolate).map .stats
  | .collect t isolate _ => (c.isolates.get? isolate).map fun i => .request t i .collectWeak
  | .objectNew payload _ => some (.newObject payload)
  | .objectRelease object => (c.objects.get? object).map .forget
  | .objectPayload object _ => (c.objects.get? object).map .payload
  | .objectRefcount object _ _ => (c.objects.get? object).map .tallies
  | .objectIsDestroyed object _ => (c.objects.get? object).map .isDestroyed
  | .persistentNew t isolate object _ =>
    (c.isolates.get? isolate).bind fun i =>
      (c.objects.get? object).map fun o => .request t i (.makePersistent o)
  | .persistentDispose t isolate slot =>
    (c.isolates.get? isolate).map fun i => .request t i (.dispose ⟨i, ⟨slot⟩⟩)
  | .persistentMakeWeak t isolate slot param callback =>
    (c.isolates.get? isolate).map fun i =>
      .request t i (.makeWeak ⟨i, ⟨slot⟩⟩ (weakRecord param callback))
  | .persistentClearWeak t isolate slot =>
    (c.isolates.get? isolate).map fun i => .request t i (.clearWeak ⟨i, ⟨slot⟩⟩)
  | .persistentIsWeak isolate slot _ =>
    (c.isolates.get? isolate).map fun i => .isWeak ⟨i, ⟨slot⟩⟩
  | .persistentIsNearDeath isolate slot _ =>
    (c.isolates.get? isolate).map fun i => .isNearDeath ⟨i, ⟨slot⟩⟩
  | .scopeOpen t isolate _ => (c.isolates.get? isolate).map fun i => .request t i .openScope
  | .scopeClose t isolate scope =>
    (c.isolates.get? isolate).map fun i => .request t i (.closeScope ⟨scope⟩)
  | .scopeEscape t isolate scope slot _ =>
    (c.isolates.get? isolate).map fun i =>
      .request t i (.escape ⟨scope⟩ ⟨i, ⟨scope⟩, ⟨slot⟩⟩)
  | .localNew t isolate object =>
    (c.isolates.get? isolate).bind fun i =>
      (c.objects.get? object).map fun o => .request t i (.addLocal none o)
  | .localGet t isolate scope slot _ =>
    (c.isolates.get? isolate).map fun i => .request t i (.getLocal ⟨i, ⟨scope⟩, ⟨slot⟩⟩)

/-- Whether a call is given the pointer for a value that it does not have to write. -/
def writes : Call → Written → Bool
  | .collect _ _ out, _ => out
  | .objectRefcount _ strongOut _, .strong _ => strongOut
  | .objectRefcount _ _ weakOut, .weak _ => weakOut
  | _, _ => true

/-- How a call tells a result. -/
def response (call : Call) (handle : UInt64) (r : Result) : Response :=
  match call, r with
  | .localNew _ _ _, .answer (.ok (.added l f)) => .slot (.ofLocal l f)
  | .localNew _ _ _, _ => .slot .null
  | .persistentNew _ _ _ _, .answer (.error e) => .status e.status [.word SlotAddr.null.raw]
  | call, r => .status r.status ((r.written handle).filter call.writes)

/-- How a call is refused. -/
def refusal (call : Call) (s : Status) : Response :=
  match call with
  | .localNew _ _ _ => .slot .null
  | _ => .status s []

/-- The handle that a call lends out, and the tables after it. -/
def lend (call : Call) (r : Result) (c : Surface) :
    UInt64 × HandleTable IsolateId × HandleTable ObjectId :=
  match call, r with
  | .create _ _, .made (.ok i) => ((c.isolates.insert i).1, (c.isolates.insert i).2, c.objects)
  | .objectNew _ _, .object o | .localGet _ _ _ _ _, .answer (.ok (.object o)) =>
    ((c.objects.insert o).1, c.isolates, (c.objects.insert o).2)
  | .destroy isolate, _ => (0, (c.isolates.remove isolate).2, c.objects)
  | .objectRelease object, _ => (0, c.isolates, (c.objects.remove object).2)
  | _, _ => (0, c.isolates, c.objects)

end Call

namespace Surface

/-- The method that a call stands for, or why the call is refused. -/
def resolve (c : Surface) (call : Call) : Except Status Method :=
  match call.need, call.method? c with
  | .first false, _ => .error .invalidArgument
  | _, none => .error .invalidHandle
  | .last false, some m =>
    .error (if (m.result? c.world).map Result.status = some .invalidHandle then .invalidHandle
      else .invalidArgument)
  | _, some m => .ok m

/-- Carries out a call by the method that it stands for. -/
def serve (c : Surface) (call : Call) : Response × Surface :=
  match c.resolve call with
  | .error s => (call.refusal s, c)
  | .ok m =>
    match m.result? c.world with
    | none => (call.refusal .invalidHandle, c)
    | some r =>
      let (handle, isolates, objects) := call.lend r c
      (call.response handle r, { world := m.effect c.world, isolates, objects })

/-! ### Calls are carried out so

What a call needs, stands for and lends out are premises of the lemmas, which each call meets by
computation (`rfl`, `show`).  The functions that go by the call have an equation for each kind of
call, and nothing is rewritten with these.
-/

/-- The isolates behind handles are there. -/
def Hosts (c : Surface) : Prop :=
  ∀ h i, c.isolates.get? h = some i → (c.world.isolate? i).isSome = true

variable {c : Surface} {t : ThreadKey} {h : UInt64} {i : IsolateId} {iso : Isolate}

/-- Under a handle nothing is found, or an isolate that is there. -/
theorem Hosts.cases (hc : c.Hosts) (h : UInt64) :
    c.isolates.get? h = none ∨
      ∃ iso, c.isolates.get? h = some iso.id ∧ c.world.isolate? iso.id = some iso := by
  cases hi : c.isolates.get? h with
  | none => exact .inl rfl
  | some i =>
    obtain ⟨iso, hiso⟩ := Option.isSome_iff_exists.1 (hc h i hi)
    obtain ⟨-, rfl⟩ := World.mem_of_isolate? hiso
    exact .inr ⟨iso, rfl, hiso⟩

theorem perform?_of_get?_eq_none {α : Type} (hi : c.isolates.get? h = none)
    (op : Isolate.Operation α) : c.perform? h op = none := by
  rw [perform?, hi]

/-- An operation on the isolate behind a handle. -/
theorem perform?_of_get? {α : Type} (hi : c.isolates.get? h = some i)
    (hiso : c.world.isolate? i = some iso) (op : Isolate.Operation α) :
    c.perform? h op = some ((op iso c.world.shared).1,
      { c with world := c.world.put (op iso c.world.shared).2 }) := by
  rw [perform?, hi]
  dsimp only
  rw [World.perform?, hiso]
  rfl

theorem effect_request {w : World} (hiso : w.isolate? i = some iso) (r : Request) :
    (Method.request t i r).effect w = w.put (r.serve t iso w.shared).2 := by
  show w.act (.request t i r) = _
  rw [World.act_request, hiso]

theorem result_request {w : World} (hiso : w.isolate? i = some iso) (r : Request) :
    (Method.request t i r).result? w = some (.answer (r.serve t iso w.shared).1) := by
  show (w.isolate? i).map _ = _
  rw [hiso]
  rfl

/-- A call stands for a method if its handles resolve and it is given the pointer it needs. -/
theorem resolve_eq_ok_iff {call : Call} {m : Method} : c.resolve call = .ok m ↔
    call.method? c = some m ∧ call.need.isMet = true := by
  unfold resolve
  cases hneed : call.need with
  | nothing => cases call.method? c <;> simp [Need.isMet]
  | first given => cases given <;> cases call.method? c <;> simp [Need.isMet]
  | last given => cases given <;> cases call.method? c <;> simp [Need.isMet]

theorem serve_refused {call : Call} {s : Status} (hr : c.resolve call = .error s) :
    c.serve call = (call.refusal s, c) := by
  rw [serve, hr]

theorem serve_ok {call : Call} {m : Method} {r : Result} (hr : c.resolve call = .ok m)
    (hres : m.result? c.world = some r) :
    c.serve call = (call.response (call.lend r c).1 r,
      { world := m.effect c.world, isolates := (call.lend r c).2.1,
        objects := (call.lend r c).2.2 }) := by
  rw [serve, hr]
  dsimp only
  rw [hres]

/-- A call with a handle that does not resolve is refused, unless it misses a pointer before. -/
theorem serve_unresolved {call : Call} (hneed : call.need ≠ .first false)
    (hm : call.method? c = none) : c.serve call = (call.refusal .invalidHandle, c) := by
  refine serve_refused ?_
  unfold resolve
  rw [hm]
  cases hn : call.need with
  | nothing => rfl
  | first given =>
    cases given with
    | false => exact absurd hn hneed
    | true => rfl
  | last given => cases given <;> rfl

/-- A call whose handle resolves to nothing is refused, unless it misses a pointer before. -/
theorem serve_of_eq_none {α : Type} {call : Call} {found : Option α} {m : α → Method}
    (hneed : call.need ≠ .first false) (hm : call.method? c = found.map m) (hfound : found = none) :
    c.serve call = (call.refusal .invalidHandle, c) := by
  refine serve_unresolved hneed ?_
  rw [hm, hfound, Option.map_none]

/-- A call whose handle resolves to something stands for the method on that. -/
theorem resolve_of_eq_some {α : Type} {call : Call} {found : Option α} {m : α → Method} {a : α}
    (hmet : call.need.isMet = true) (hm : call.method? c = found.map m) (hfound : found = some a) :
    c.resolve call = .ok (m a) := by
  refine resolve_eq_ok_iff.2 ⟨?_, hmet⟩
  rw [hm, hfound, Option.map_some]

/-- A call that only reads, and looks at its pointer after the handles: without the pointer it is
refused, for the handle if the result says so. -/
theorem serve_of_last {α : Type} {call : Call} {found : Option α} {m : α → Method} {a : α}
    {out : Bool} {r : Result} (hneed : call.need = .last out)
    (hm : call.method? c = found.map m) (hfound : found = some a) (hact : (m a).act? = none)
    (hresult : (m a).result? c.world = some r)
    (hlend : call.lend r c = (0, c.isolates, c.objects)) :
    c.serve call = (if out then call.response 0 r
      else call.refusal (if r.status = .invalidHandle then .invalidHandle else .invalidArgument),
        c) := by
  cases out with
  | false =>
    refine serve_refused ?_
    rw [resolve, hneed, hm, hfound]
    dsimp only [Option.map_some]
    rw [hresult, Option.map_some]
    simp only [Option.some.injEq]
  | true =>
    have hmet : call.need.isMet = true := by
      rw [hneed]
      rfl
    rw [serve_ok (resolve_of_eq_some hmet hm hfound) hresult, hlend, Method.effect, hact]
    rfl

/-- A request about an object that is not found is refused. -/
theorem serve_of_object_eq_none {call : Call} {object : UInt64} {r : ObjectId → Request}
    (hmet : call.need.isMet = true)
    (hm : call.method? c = (c.isolates.get? h).bind fun i =>
      (c.objects.get? object).map fun o => .request t i (r o))
    (ho : c.objects.get? object = none) : c.serve call = (call.refusal .invalidHandle, c) := by
  refine serve_unresolved (Need.ne_of_isMet hmet) ?_
  rw [hm, ho]
  cases c.isolates.get? h <;> rfl

/-- A request about an object that is found. -/
theorem method?_of_object {call : Call} {object : UInt64} {o : ObjectId} {r : ObjectId → Request}
    (hm : call.method? c = (c.isolates.get? h).bind fun i =>
      (c.objects.get? object).map fun o => .request t i (r o))
    (ho : c.objects.get? object = some o) :
    call.method? c = (c.isolates.get? h).map fun i => .request t i (r o) := by
  rw [hm, ho]
  cases c.isolates.get? h <;> rfl

/-- A call that stands for a request, which is served by an operation: it is refused, or the
operation runs on the isolate. -/
theorem Hosts.request_cases (hc : c.Hosts) {α : Type} (call : Call) {r : IsolateId → Request}
    (op : Isolate.Operation (Except HandleError α)) {f : α → Answer}
    (hmet : call.need.isMet = true)
    (hm : call.method? c = (c.isolates.get? h).map fun i => .request t i (r i))
    (hop : ∀ iso w, (r iso.id).serve t iso w = Isolate.Outcome.map f (op iso w)) :
    c.perform? h op = none ∧ c.serve call = (call.refusal .invalidHandle, c) ∨
      ∃ a left, c.perform? h op = some (a, { c with world := c.world.put left }) ∧
        c.serve call = (call.response (call.lend (.answer (a.map f)) c).1 (.answer (a.map f)),
          { world := c.world.put left, isolates := (call.lend (.answer (a.map f)) c).2.1,
            objects := (call.lend (.answer (a.map f)) c).2.2 }) := by
  rcases hc.cases h with hi | ⟨iso, hi, hiso⟩
  · exact .inl ⟨perform?_of_get?_eq_none hi op, serve_of_eq_none (Need.ne_of_isMet hmet) hm hi⟩
  · refine .inr ⟨_, _, perform?_of_get? hi hiso op, ?_⟩
    have hserve := serve_ok (resolve_of_eq_some hmet hm hi) (result_request hiso _)
    rw [effect_request hiso, hop] at hserve
    exact hserve

/-- A call that needs an isolate and writes nothing. -/
theorem command_eq (hc : c.Hosts) {call : Call} {r : IsolateId → Request}
    {op : Isolate.Operation (Except HandleError Unit)}
    (hmet : call.need.isMet = true)
    (hm : call.method? c = (c.isolates.get? h).map fun i => .request t i (r i))
    (hop : ∀ iso w, (r iso.id).serve t iso w = Isolate.Outcome.map (fun _ => .done) (op iso w))
    (hlend : ∀ x, call.lend x c = (0, c.isolates, c.objects))
    (hrefuse : ∀ s, call.refusal s = .status s [])
    (hresponse : ∀ a, call.response 0 (.answer a)
      = .status (.ofExcept a) ((Result.written 0 (.answer a)).filter call.writes)) :
    ofCommand (c.command h op) = c.serve call := by
  rcases hc.request_cases call op hmet hm hop with ⟨hp, hs⟩ | ⟨a, left, hp, hs⟩
  · rw [hs, command, hp, hrefuse]
    rfl
  · rw [hs, command, hp, hlend, hresponse]
    cases a <;> rfl

/-- A call that reads something off an isolate. -/
theorem inspect_eq (hc : c.Hosts) {α : Type} {call : Call} {m : IsolateId → Method} {out : Bool}
    {read : Isolate → α} {f : α → Written} {g : IsolateId → Isolate → Result}
    (hneed : call.need = .last out)
    (hm : call.method? c = (c.isolates.get? h).map m)
    (hact : ∀ i, (m i).act? = none)
    (hresult : ∀ i, (m i).result? c.world = (c.world.isolate? i).map (g i))
    (hstatus : ∀ iso, (g iso.id iso).status = .ok)
    (hlend : ∀ x, call.lend x c = (0, c.isolates, c.objects))
    (hrefuse : ∀ s, call.refusal s = .status s [])
    (hresponse : ∀ iso, call.response 0 (g iso.id iso) = .status .ok [f (read iso)]) :
    ofReply f (c.inspect h out read) = c.serve call := by
  rcases hc.cases h with hi | ⟨iso, hi, hiso⟩
  · have hlast : call.need ≠ .first false := by
      rw [hneed]
      exact nofun
    rw [serve_of_eq_none hlast hm hi, inspect, isolate?, hi, hrefuse]
    rfl
  · have hiso' : c.isolate? h = some iso := by
      rw [isolate?, hi]
      exact hiso
    have hr : (m iso.id).result? c.world = some (g iso.id iso) := by
      rw [hresult, hiso, Option.map_some]
    rw [serve_of_last hneed hm hi (hact _) hr (hlend _), hstatus, hrefuse, hresponse, inspect,
      hiso']
    cases out <;> rfl

/-! Isolates. -/

theorem create_eq (c : Surface) (config : Option Config) (out : Bool) :
    c.call (.create config out) = c.serve (.create config out) := by
  cases out with
  | false => rfl
  | true =>
    show ofReply .word (c.create config true) = _
    have heffect : (Method.newIsolate (config.getD {}).toIsolateConfig).effect c.world
        = (c.world.newIsolate (config.getD {}).toIsolateConfig).2 := rfl
    have hres : c.resolve (.create config true)
        = .ok (.newIsolate (config.getD {}).toIsolateConfig) := rfl
    rw [serve_ok hres rfl, heffect, create]
    generalize c.world.newIsolate (config.getD {}).toIsolateConfig = r
    obtain ⟨a, world⟩ := r
    cases a <;> rfl

theorem destroy_eq (c : Surface) (h : UInt64) : c.call (.destroy h) = c.serve (.destroy h) := by
  show ofCommand (c.destroy h) = _
  cases hi : c.isolates.get? h with
  | none =>
    rw [serve_of_eq_none Need.noConfusion rfl hi, destroy, HandleTable.remove_of_get?_eq_none hi]
    rfl
  | some i =>
    obtain ⟨isolates, hremove⟩ : ∃ isolates, c.isolates.remove h = (some i, isolates) :=
      ⟨_, HandleTable.remove_of_get? hi⟩
    have hlend : (Call.destroy h).lend .done c = (0, isolates, c.objects) := by
      show (0, (c.isolates.remove h).2, c.objects) = _
      rw [hremove]
    rw [serve_ok (resolve_of_eq_some rfl rfl hi) rfl, hlend, destroy, hremove]
    rfl

theorem enter_eq (hc : c.Hosts) (t : ThreadKey) (h : UInt64) :
    c.call (.enter t h) = c.serve (.enter t h) := by
  show ofCommand (c.enter t h) = _
  rcases hc.cases h with hi | ⟨iso, hi, hiso⟩
  · rw [serve_of_eq_none Need.noConfusion rfl hi, enter, hi]
    rfl
  · obtain ⟨p, hp⟩ := World.exists_enter? hiso t
    have hr : (Method.enter t iso.id).result? c.world = some .done := by
      show (c.world.enter? t iso.id).map _ = _
      rw [hp, Option.map_some]
    have heffect : (Method.enter t iso.id).effect c.world = p.2 := by
      show c.world.orStay (c.world.enter? t iso.id) = _
      rw [hp]
      rfl
    rw [serve_ok (resolve_of_eq_some rfl rfl hi) hr, heffect, enter, hi, Option.bind_some, hp]
    rfl

theorem exit_eq (hc : c.Hosts) (t : ThreadKey) (h : UInt64) :
    c.call (.exit t h) = c.serve (.exit t h) := by
  show ofCommand (c.exit t h) = _
  rcases hc.cases h with hi | ⟨iso, hi, hiso⟩
  · rw [serve_of_eq_none Need.noConfusion rfl hi, exit, hi]
    rfl
  · obtain ⟨⟨a, world⟩, hp⟩ := World.exists_exit? hiso t
    have hr : (Method.exit t iso.id).result? c.world = some (.answer (a.map fun _ => .done)) := by
      show (c.world.exit? t iso.id).map _ = _
      rw [hp, Option.map_some]
    have heffect : (Method.exit t iso.id).effect c.world = world := by
      show c.world.orStay (c.world.exit? t iso.id) = _
      rw [hp]
      rfl
    rw [serve_ok (resolve_of_eq_some rfl rfl hi) hr, heffect, exit, hi, Option.bind_some, hp]
    cases a <;> rfl

theorem collect_eq (hc : c.Hosts) (t : ThreadKey) (h : UInt64) (out : Bool) :
    c.call (.collect t h out) = c.serve (.collect t h out) := by
  show ofReply .report (c.collect h out) = _
  rcases hc.cases h with hi | ⟨iso, hi, hiso⟩
  · rw [serve_of_eq_none Need.noConfusion rfl hi, collect, perform?_of_get?_eq_none hi]
    rfl
  · rw [serve_ok (resolve_of_eq_some rfl rfl hi) (result_request hiso _), effect_request hiso,
      collect, perform?_of_get? hi hiso]
    cases out <;> rfl

/-! Objects. -/

theorem objectRelease_eq (c : Surface) (h : UInt64) :
    c.call (.objectRelease h) = c.serve (.objectRelease h) := by
  show ofCommand (c.objectRelease h) = _
  cases ho : c.objects.get? h with
  | none =>
    rw [serve_of_eq_none Need.noConfusion rfl ho, objectRelease, HandleTable.remove_of_get?_eq_none ho]
    rfl
  | some o =>
    obtain ⟨objects, hremove⟩ : ∃ objects, c.objects.remove h = (some o, objects) :=
      ⟨_, HandleTable.remove_of_get? ho⟩
    have hlend : (Call.objectRelease h).lend .done c = (0, c.isolates, objects) := by
      show (0, c.isolates, (c.objects.remove h).2) = _
      rw [hremove]
    rw [serve_ok (resolve_of_eq_some rfl rfl ho) rfl, hlend, objectRelease, hremove]
    rfl

theorem objectPayload_eq (c : Surface) (h : UInt64) (out : Bool) :
    c.call (.objectPayload h out) = c.serve (.objectPayload h out) := by
  show ofReply .word (c.objectPayload h out) = _
  cases ho : c.objects.get? h with
  | none =>
    rw [serve_of_eq_none Need.noConfusion rfl ho, objectPayload, inspectObject, ho]
    rfl
  | some o =>
    rw [serve_of_last rfl rfl ho rfl rfl rfl, objectPayload, inspectObject, ho, Option.bind_some]
    cases (c.world.heap.cell o).word? <;> cases out <;> rfl

theorem objectRefcount_eq (c : Surface) (h : UInt64) (strongOut weakOut : Bool) :
    c.call (.objectRefcount h strongOut weakOut) = c.serve (.objectRefcount h strongOut weakOut) := by
  show (match c.objectRefcount h strongOut weakOut with
    | (s, strong, weak, c') =>
      (Response.status s ((strong.map Written.strong).toList ++ (weak.map Written.weak).toList), c')) = _
  cases ho : c.objects.get? h with
  | none =>
    rw [serve_of_eq_none Need.noConfusion rfl ho, objectRefcount, ho]
    rfl
  | some o =>
    rw [serve_ok (resolve_of_eq_some rfl rfl ho) rfl, objectRefcount, ho]
    cases strongOut <;> cases weakOut <;> rfl

theorem objectIsDestroyed_eq (c : Surface) (h : UInt64) (out : Bool) :
    c.call (.objectIsDestroyed h out) = c.serve (.objectIsDestroyed h out) := by
  show ofReply .flag (c.objectIsDestroyed h out) = _
  cases ho : c.objects.get? h with
  | none =>
    rw [serve_of_eq_none Need.noConfusion rfl ho, objectIsDestroyed, inspectObject, ho]
    rfl
  | some o =>
    rw [serve_of_last rfl rfl ho rfl rfl rfl, objectIsDestroyed, inspectObject, ho]
    cases out <;> rfl

/-! Handles. -/

theorem persistentNew_eq (hc : c.Hosts) (t : ThreadKey) (h object : UInt64) (out : Bool) :
    c.call (.persistentNew t h object out) = c.serve (.persistentNew t h object out) := by
  cases out with
  | false => rfl
  | true =>
    show ofReply .word (c.persistentNew t h object true) = _
    cases ho : c.objects.get? object with
    | none =>
      rw [serve_of_object_eq_none rfl rfl ho, persistentNew, ho]
      rfl
    | some o =>
      rcases hc.request_cases (.persistentNew t h object true)
        (fun i w => i.makePersistent t o w) (f := .made) (r := fun _ => .makePersistent o) rfl
        (method?_of_object rfl ho) (fun _ _ => rfl) with ⟨hp, hs⟩ | ⟨a, left, hp, hs⟩ <;>
        rw [hs, persistentNew, ho] <;> dsimp only <;> rw [hp]
      · rfl
      · cases a <;> rfl

theorem scopeOpen_eq (hc : c.Hosts) (t : ThreadKey) (h : UInt64) (out : Bool) :
    c.call (.scopeOpen t h out) = c.serve (.scopeOpen t h out) := by
  cases out with
  | false => rfl
  | true =>
    show ofReply .word (c.scopeOpen t h true) = _
    rcases hc.request_cases (.scopeOpen t h true) (fun i w => i.openScope t w) (f := .scope)
      rfl rfl (fun _ _ => rfl) with ⟨hp, hs⟩ | ⟨a, left, hp, hs⟩ <;>
      rw [hs, scopeOpen, hp]
    · rfl
    · cases a <;> rfl

theorem scopeEscape_eq (hc : c.Hosts) (t : ThreadKey) (h scope slot : UInt64) (out : Bool) :
    c.call (.scopeEscape t h scope slot out) = c.serve (.scopeEscape t h scope slot out) := by
  cases out with
  | false => rfl
  | true =>
    show ofReply .word (c.scopeEscape t h scope slot true) = _
    rcases hc.request_cases (.scopeEscape t h scope slot true)
      (fun i w => i.escape t ⟨scope⟩ ⟨i.id, ⟨scope⟩, ⟨slot⟩⟩ w) (f := .moved)
      (r := fun i => .escape ⟨scope⟩ ⟨i, ⟨scope⟩, ⟨slot⟩⟩)
      rfl rfl (fun _ _ => rfl) with ⟨hp, hs⟩ | ⟨a, left, hp, hs⟩ <;>
      rw [hs, scopeEscape, hp]
    · rfl
    · cases a <;> rfl

theorem localNew_eq (hc : c.Hosts) (t : ThreadKey) (h object : UInt64) :
    c.call (.localNew t h object) = c.serve (.localNew t h object) := by
  show (Response.slot (c.localNew t h object).1, (c.localNew t h object).2) = _
  cases ho : c.objects.get? object with
  | none =>
    rw [serve_of_object_eq_none rfl rfl ho, localNew, ho]
    rfl
  | some o =>
    rcases hc.request_cases (.localNew t h object) (fun i w => i.addLocal t o w)
      (f := fun p => .added p.1 p.2) rfl (method?_of_object rfl ho) (fun _ _ => rfl) with
      ⟨hp, hs⟩ | ⟨a, left, hp, hs⟩ <;> rw [hs, localNew, ho] <;> dsimp only <;> rw [hp]
    · rfl
    · cases a <;> rfl

theorem localGet_eq (hc : c.Hosts) (t : ThreadKey) (h scope slot : UInt64) (out : Bool) :
    c.call (.localGet t h scope slot out) = c.serve (.localGet t h scope slot out) := by
  cases out with
  | false => rfl
  | true =>
    show ofReply .word (c.localGet t h scope slot true) = _
    rcases hc.request_cases (.localGet t h scope slot true)
      (fun i w => i.getLocal t ⟨i.id, ⟨scope⟩, ⟨slot⟩⟩ w) (f := .object)
      (r := fun i => .getLocal ⟨i, ⟨scope⟩, ⟨slot⟩⟩)
      rfl rfl (fun _ _ => rfl) with ⟨hp, hs⟩ | ⟨a, left, hp, hs⟩ <;>
      rw [hs, localGet, hp]
    · rfl
    · cases a <;> rfl

/-- **Every call is carried out by the method that it stands for,** while the isolates behind
handles are there. -/
theorem Hosts.call_eq (hc : c.Hosts) (call : Call) : c.call call = c.serve call := by
  cases call with
  | configDefault out => cases out <;> rfl
  | create config out => exact create_eq c config out
  | destroy h => exact destroy_eq c h
  | enter t h => exact enter_eq hc t h
  | exit t h => exact exit_eq hc t h
  | containsThreads h out =>
    exact inspect_eq hc (m := .containsThreads) rfl rfl (fun _ => rfl) (fun _ => rfl) (fun _ => rfl)
      (fun _ => rfl) (fun _ => rfl) fun _ => rfl
  | stats h out =>
    exact inspect_eq hc (m := .stats) rfl rfl (fun _ => rfl) (fun _ => rfl) (fun _ => rfl)
      (fun _ => rfl) (fun _ => rfl) fun _ => rfl
  | collect t h out => exact collect_eq hc t h out
  | objectNew payload out => cases out <;> rfl
  | objectRelease h => exact objectRelease_eq c h
  | objectPayload h out => exact objectPayload_eq c h out
  | objectRefcount h strongOut weakOut => exact objectRefcount_eq c h strongOut weakOut
  | objectIsDestroyed h out => exact objectIsDestroyed_eq c h out
  | persistentNew t h object out => exact persistentNew_eq hc t h object out
  | persistentDispose t h slot =>
    exact command_eq hc (r := fun i => .dispose ⟨i, ⟨slot⟩⟩) rfl rfl (fun _ _ => rfl)
      (fun _ => rfl) (fun _ => rfl) fun _ => rfl
  | persistentMakeWeak t h slot param callback =>
    exact command_eq hc (r := fun i => .makeWeak ⟨i, ⟨slot⟩⟩ (weakRecord param callback)) rfl rfl
      (fun _ _ => rfl) (fun _ => rfl) (fun _ => rfl) fun _ => rfl
  | persistentClearWeak t h slot =>
    exact command_eq hc (r := fun i => .clearWeak ⟨i, ⟨slot⟩⟩) rfl rfl (fun _ _ => rfl)
      (fun _ => rfl) (fun _ => rfl) fun _ => rfl
  | persistentIsWeak h slot out =>
    exact inspect_eq hc (m := fun i => .isWeak ⟨i, ⟨slot⟩⟩) rfl rfl (fun _ => rfl) (fun _ => rfl)
      (fun _ => rfl) (fun _ => rfl) (fun _ => rfl) fun _ => rfl
  | persistentIsNearDeath h slot out =>
    exact inspect_eq hc (m := fun i => .isNearDeath ⟨i, ⟨slot⟩⟩) rfl rfl (fun _ => rfl)
      (fun _ => rfl) (fun _ => rfl) (fun _ => rfl) (fun _ => rfl) fun _ => rfl
  | scopeOpen t h out => exact scopeOpen_eq hc t h out
  | scopeClose t h scope =>
    exact command_eq hc (r := fun _ => .closeScope ⟨scope⟩) rfl rfl (fun _ _ => rfl)
      (fun _ => rfl) (fun _ => rfl) fun _ => rfl
  | scopeEscape t h scope slot out => exact scopeEscape_eq hc t h scope slot out
  | localNew t h object => exact localNew_eq hc t h object
  | localGet t h scope slot out => exact localGet_eq hc t h scope slot out

end Surface
end Foreign
end EngineHandles
