import DiagnosticsClient.Proofs.Session.Hearing
/-
Which frames belong to which routines.

A stack of frames is like a typed one: each frame serves a routine, and calls
another. `Thread.Fits` says that a thread of the session has such a stack up to
the routine that its task was made for, that it waits for a future of the right
role, and that what a routine gives is what its callers expect. `Fits` says so
of all threads of a loop.

`Does` is what has to be shown of each routine and each frame, and
`Fits.tick_of_does` is the one place where it is used.
-/
namespace DiagnosticsClient

open Async Async.Machine

/-- The response that answers a request. -/
def Value.Answers (asking : Request) : Value → Prop
  | .message (.response r) => r.answers asking = true
  | _ => False

namespace Routine

/-- A routine that is, or becomes, the exchange of two requests. -/
inductive Exchanges : Routine → Request → Request → Prop
  | exchange (opening asking : Request) : Exchanges (.exchange opening asking) opening asking
  | request (file : Json) (n : Nat) :
      Exchanges (.request file none) (.openFile n file) (.semanticDiagnostics (n + 1 : Nat) file)

/-- What a routine may give. -/
def Gives (s : State) : Routine → Value → Prop
  | .exchange _ asking, v => v.Answers asking
  | .request file _, v => ∃ seq, v.Answers (.semanticDiagnostics seq file)
  | .within _ inner, v => inner.Gives s v
  | .next _, v => ∃ m, v = .message m
  | .take _, v => ∃ d, v = .delivery d
  | .awaitExit c, _ => s.IsDead c
  | _, _ => True

/-- What a routine gave it may still give. -/
theorem Gives.mono {s s' : State} {r : Routine} {v : Value} (h : r.Gives s v) (hd : ∀ {c}, s.IsDead c → s'.IsDead c) :
    r.Gives s' v := by
  induction r with
  | within limit inner ih => exact ih h
  | awaitExit c => exact hd h
  | _ => exact h

/-- A routine that runs in the place of the one that was called. -/
inductive StandsFor : Routine → Routine → Prop
  | refl (r : Routine) : StandsFor r r
  | exchange {file : Json} {opening asking : Request} (h : Exchanges (.request file none) opening asking) :
      StandsFor (.exchange opening asking) (.request file none)
  | endTasks (t : TransportId) (tasks : List TaskId) : StandsFor (.endTasks t tasks) (.stop t)

/-- What callers may ask for. -/
def isAsked : Routine → Bool
  | .openListener _ => true
  | .closeListener _ => true
  | .closeSession => true
  | .next _ => true
  | .collect _ => true
  | .visit _ => true
  | .request .. => true
  | _ => false

/-- What drives transports and limits time; it has nothing to do with the lock and the listeners. -/
def isDriving : Routine → Bool
  | .within .. => true
  | .cancelAndWait _ => true
  | .start _ => true
  | .stop _ => true
  | .endTasks .. => true
  | .awaitExit _ => true
  | .readOutput .. => true
  | .drainErrors _ => true
  | _ => false

/-- The tasks that a routine is about are there, and of the right kind. -/
def Valid (roots : TaskId → Option Routine) : Routine → Prop
  | .within _ inner => inner.isInner = true
  | .cancelAndWait u => ∃ r, roots u = some r ∧ r.isInner = true
  | .endTasks _ tasks => ∀ u ∈ tasks, ∃ r, roots u = some r ∧ r.reads = true
  | _ => True

/-- What a task may be made for. -/
def isRoot (r : Routine) : Bool := r.isAsked || r.isSpawned || r.gathers

theorem isRoot_of_isAsked {r : Routine} (h : r.isAsked = true) : r.isRoot = true := by
  simp [isRoot, h]

theorem isRoot_of_isSpawned {r : Routine} (h : r.isSpawned = true) : r.isRoot = true := by
  simp [isRoot, h]

end Routine

namespace Frame

/-- A frame goes on with what the routine gives that it has called. -/
inductive Calls : Frame → Routine → Prop
  | opening (l : ListenerId) : Calls (.opening l) (.register l)
  | registering (l : ListenerId) : Calls (.registering l) .acquireLock
  | starting (l : ListenerId) (t : TransportId) : Calls (.starting l t) (.start t)
  | leaving (l : ListenerId) : Calls (.leaving l) .acquireLock
  | closing : Calls .closing .acquireLock
  | releasing (t : TransportId) : Calls .releasing (.stop t)
  | receiving (l : ListenerId) : Calls (.receiving l) (.take l)
  | collecting (l : ListenerId) (taken : List Message) : Calls (.collecting l taken) (.next l)
  | visiting (l : ListenerId) (count : Nat) : Calls (.visiting l count) (.openListener l)
  | visited (l : ListenerId) (count : Nat) (taken : List Message) : Calls (.visited l count taken) (.next l)
  | finishing (e : Ending) (l : ListenerId) : Calls (.finishing e) (.closeListener l)
  | requesting (file : Json) (seq : Int) (limit : Seconds) (opening : Request) :
      Calls (.requesting file seq limit) (.within limit (.exchange opening (.semanticDiagnostics seq file)))
  | introducing (l : ListenerId) (opening asking : Request) : Calls (.introducing l opening asking) (.openListener l)
  | expecting (l : ListenerId) (asking : Request) : Calls (.expecting l asking) (.next l)
  | overdue (u : TaskId) : Calls (.overdue u) (.cancelAndWait u)
  | lapsed (u : TaskId) (w : FutureId) : Calls (.lapsed u w) (.cancelAndWait u)
  | abandoned (u : TaskId) (w : FutureId) : Calls (.abandoned w) (.cancelAndWait u)
  | outputEnded (t : TransportId) (c : ChildId) (pending : Nat) : Calls (.outputEnded t c pending) (.awaitExit c)
  | terminating (c : ChildId) (limit : Seconds) : Calls (.terminating c) (.within limit (.awaitExit c))
  | killing (c : ChildId) : Calls (.killing c) (.awaitExit c)
  | answered (file : Text) (context : Context) (path : Json) (limit : Option Seconds) :
      Calls (.answered file context) (.request path limit)
  | finishingCheck (e : Ending) : Calls (.finishing e) .closeSession

/-- A frame is where a routine has got to; `roots` are the routines that tasks were made for. -/
inductive Serves (roots : TaskId → Option Routine) : Frame → Routine → Prop
  | locking (w : FutureId) : Serves roots (.locking w) .acquireLock
  | opening (l : ListenerId) : Serves roots (.opening l) (.openListener l)
  | registering (l : ListenerId) : Serves roots (.registering l) (.register l)
  | starting (l : ListenerId) (t : TransportId) : Serves roots (.starting l t) (.register l)
  | leaving (l : ListenerId) : Serves roots (.leaving l) (.closeListener l)
  | closing : Serves roots .closing .closeSession
  | releasingListener (l : ListenerId) : Serves roots .releasing (.closeListener l)
  | releasingSession : Serves roots .releasing .closeSession
  | receiving (l : ListenerId) : Serves roots (.receiving l) (.next l)
  | getting (l : ListenerId) (g : FutureId) : Serves roots (.getting l g) (.take l)
  | collecting (l : ListenerId) (taken : List Message) : Serves roots (.collecting l taken) (.collect l)
  | visiting (l : ListenerId) (count total : Nat) : Serves roots (.visiting l count) (.visit total)
  | visited (l : ListenerId) (count total : Nat) (taken : List Message) : Serves roots (.visited l count taken) (.visit total)
  | finishingVisit (e : Ending) (total : Nat) : Serves roots (.finishing e) (.visit total)
  | finishing {e : Ending} {r : Routine} {opening asking : Request} (h : r.Exchanges opening asking)
      (he : ∀ v, e = .value v → v.Answers asking) : Serves roots (.finishing e) r
  | requesting (file : Json) (seq : Int) (limit : Seconds) :
      Serves roots (.requesting file seq limit) (.request file (some limit))
  | introducing {l : ListenerId} {r : Routine} {opening asking : Request} (h : r.Exchanges opening asking) :
      Serves roots (.introducing l opening asking) r
  | expecting {l : ListenerId} {r : Routine} {opening asking : Request} (h : r.Exchanges opening asking) :
      Serves roots (.expecting l asking) r
  | timing {u : TaskId} {inner : Routine} (w : FutureId) (limit : Seconds) (hu : roots u = some inner)
      (hi : inner.isInner = true) : Serves roots (.timing u w) (.within limit inner)
  | overdue {u : TaskId} {inner : Routine} (limit : Seconds) (hu : roots u = some inner) :
      Serves roots (.overdue u) (.within limit inner)
  | lapsed {u : TaskId} {inner : Routine} (w : FutureId) (limit : Seconds) (hu : roots u = some inner) :
      Serves roots (.lapsed u w) (.within limit inner)
  | abandoned (w : FutureId) (limit : Seconds) (inner : Routine) : Serves roots (.abandoned w) (.within limit inner)
  | cancelWaiting (u : TaskId) (w : FutureId) : Serves roots (.cancelWaiting u w) (.cancelAndWait u)
  | gatedStart (t : TransportId) (fails : Bool) (w : FutureId) : Serves roots (.gated t .start fails w) (.start t)
  | gatedStop (t : TransportId) (fails : Bool) (w : FutureId) : Serves roots (.gated t .stop fails w) (.stop t)
  | ending {t : TransportId} {tasks : List TaskId} (h : ∀ u ∈ tasks, ∃ r, roots u = some r ∧ r.reads = true) :
      Serves roots (.ending t tasks) (.stop t)
  | terminating (c : ChildId) (t : TransportId) : Serves roots (.terminating c) (.stop t)
  | killing (c : ChildId) (t : TransportId) : Serves roots (.killing c) (.stop t)
  | exiting (c : ChildId) : Serves roots (.exiting c) (.awaitExit c)
  | reading (t : TransportId) (c : ChildId) (decoder : Decoder) : Serves roots (.reading t c decoder) (.readOutput t c)
  | outputEnded (t : TransportId) (c : ChildId) (pending : Nat) :
      Serves roots (.outputEnded t c pending) (.readOutput t c)
  | draining (c : ChildId) : Serves roots (.draining c) (.drainErrors c)
  | answered (file : Text) (context : Context) (limit : Option Seconds) :
      Serves roots (.answered file context) (.checkFile file context limit)
  | readSource (file : Text) (context : Context) (limit : Option Seconds) (diagnostics : List Diagnostic) :
      Serves roots (.readSource file context diagnostics) (.checkFile file context limit)
  | gathered (members : List TaskId) (files : List Text) (context : Context) (limit : Option Seconds) :
      Serves roots (.gathered members) (.checkFiles files context limit)
  | finishingCheck (e : Ending) (files : List Text) (context : Context) (limit : Option Seconds) :
      Serves roots (.finishing e) (.checkFiles files context limit)

/-- A frame that waits for a future itself. -/
def isWait : Frame → Bool
  | .locking _ => true
  | .getting .. => true
  | .timing .. => true
  | .cancelWaiting .. => true
  | .gated .. => true
  | .ending .. => true
  | .exiting _ => true
  | .reading .. => true
  | .draining _ => true
  | .readSource .. => true
  | .gathered _ => true
  | _ => false

/-- A frame waits for a future of the right role. -/
inductive Awaits (role : FutureId → Role) (m : Loop) : Frame → FutureId → Prop
  | locking {w : FutureId} (h : m.HasRole role .lock w) : Awaits role m (.locking w) w
  | getting {g : FutureId} (l : ListenerId) (h : m.HasRole role .getter g) : Awaits role m (.getting l g) g
  | ending {f : FutureId} {u : TaskId} (t : TransportId) (tasks : List TaskId) (h : m.owner? f = some (some u))
      (hu : m.IsReader u) : Awaits role m (.ending t tasks) f
  | timing {w : FutureId} (u : TaskId) (h : m.HasRole role .reserved w) : Awaits role m (.timing u w) w
  | cancelWaiting {f : FutureId} (u : TaskId) (w : FutureId) (h : m.HasRole role .reserved f) :
      Awaits role m (.cancelWaiting u w) f
  | gated {f : FutureId} (t : TransportId) (call : Call) (fails : Bool) (w : FutureId) (h : m.HasRole role .other f) :
      Awaits role m (.gated t call fails w) f
  | exiting {f : FutureId} {c : ChildId} (h : m.HasRole role (.exit c) f) : Awaits role m (.exiting c) f
  | reading {f : FutureId} (t : TransportId) (c : ChildId) (decoder : Decoder) (h : m.HasRole role .other f) :
      Awaits role m (.reading t c decoder) f
  | draining {f : FutureId} (c : ChildId) (h : m.HasRole role .other f) : Awaits role m (.draining c) f
  | readSource {f : FutureId} (file : Text) (context : Context) (diagnostics : List Diagnostic) (h : m.HasRole role .other f) :
      Awaits role m (.readSource file context diagnostics) f
  | gathered {f : FutureId} (members : List TaskId) (h : m.HasRole role .reserved f) : Awaits role m (.gathered members) f

/-- A frame that waited for the lock or for a listener goes on with the outcome of its future, or is cancelled after all;
one that waited for the end of a child is given a value only once the child has ended. -/
def Woke (role : FutureId → Role) (m : Loop) (o : Ending) : Frame → Prop
  | .locking w => m.HasRole role .lock w ∧ ∃ o', m.outcome? w = some o' ∧ (o = o' ∨ o = .cancelled)
  | .getting _ g => m.HasRole role .getter g ∧ ∃ o', m.outcome? g = some o' ∧ (o = o' ∨ o = .cancelled)
  | .exiting c => ∀ v, o = .value v → m.state.IsDead c
  | _ => True

/-- What a frame goes on with is what it expects. -/
def Gets (s : State) (F : Frame) (o : Ending) : Prop :=
  F.isWait = true ∨ ∃ r, F.Calls r ∧ ∀ v, o = .value v → r.Gives s v

theorem Gets.mono {s s' : State} {F : Frame} {o : Ending} (h : F.Gets s o) (hd : ∀ {c}, s.IsDead c → s'.IsDead c) :
    F.Gets s' o :=
  h.imp_right fun ⟨r, hc, hg⟩ => ⟨r, hc, fun v hv => (hg v hv).mono hd⟩

end Frame

/-- A task that is cancelled and waited for is one whose time is limited. -/
def Routine.Minds (roots : TaskId → Option Routine) (called served : Routine) : Prop :=
  ∀ u, called = .cancelAndWait u → ∃ limit inner, served = .within limit inner ∧ roots u = some inner

/-- A stack of frames that waits for what `called` gives, down to the routine `root` of the task. -/
inductive Stacked (roots : TaskId → Option Routine) (root : Routine) : (called : Routine) → List Frame → Prop
  | nil : Stacked roots root root []
  | cons {F : Frame} {called r : Routine} {stack : List Frame} (hc : F.Calls called) (hs : F.Serves roots r)
      (hu : called.Minds roots r) (h : Stacked roots root r stack) : Stacked roots root called (F :: stack)

/-- A thread of a task that was made for `root`. -/
inductive ThreadFits (role : FutureId → Role) (m : Loop) (root : Routine) : Thread Routine Frame Value Failure → Prop
  | fresh : ThreadFits role m root ⟨.fresh root, []⟩
  | begins {r called : Routine} {stack : List Frame} (hv : r.Valid m.routine?) (hr : r.StandsFor called)
      (h : Stacked m.routine? root called stack) : ThreadFits role m root ⟨.begins r, stack⟩
  | ends {o : Ending} (h : ∀ v, o = .value v → root.Gives m.state v) : ThreadFits role m root ⟨.resumes o, []⟩
  | resumes {o : Ending} {F : Frame} {called : Routine} {stack : List Frame} (hs : F.Serves m.routine? called)
      (hg : F.Gets m.state o) (hw : F.Woke role m o) (h : Stacked m.routine? root called stack) :
      ThreadFits role m root ⟨.resumes o, F :: stack⟩
  | waits {f : FutureId} {F : Frame} {called : Routine} {stack : List Frame} (hs : F.Serves m.routine? called)
      (ha : F.Awaits role m f) (h : Stacked m.routine? root called stack) :
      ThreadFits role m root ⟨.waits f, F :: stack⟩

/-! ## What a root has on its stack -/

section roots

variable {roots roots' : TaskId → Option Routine} {root called r : Routine} {F : Frame} {stack : List Frame}

/-- What only waits for the end of a child calls nothing. -/
theorem Frame.Serves.not_calls_of_awaitExit {c : ChildId} (hs : F.Serves roots (.awaitExit c)) : ¬ F.Calls called := by
  intro hc
  cases hs with
  | exiting => cases hc
  | finishing h => cases h
  | introducing h => cases h
  | expecting h => cases h

/-- What reads from a child calls nothing but the wait for its end. -/
theorem Frame.Serves.calls_of_reads (hs : F.Serves roots r) (hr : r.reads = true) (hc : F.Calls called) :
    ∃ c, called = .awaitExit c := by
  cases hs with
  | reading => cases hc
  | outputEnded => cases hc; exact ⟨_, rfl⟩
  | draining => cases hc
  | finishing h => cases h <;> cases hr
  | introducing h => cases h <;> cases hr
  | expecting h => cases h <;> cases hr
  | _ => cases hr

/-- A start waits at its gate only. -/
theorem Frame.Serves.of_start {t : TransportId} (h : F.Serves roots (.start t)) : ∃ fails w, F = .gated t .start fails w := by
  cases h with
  | gatedStart => exact ⟨_, _, rfl⟩
  | finishing hx => cases hx
  | introducing hx => cases hx
  | expecting hx => cases hx

/-- What is served by frames that call nothing has nothing on its stack. -/
theorem Stacked.of_leaf (h : Stacked roots root called stack)
    (hleaf : ∀ {F : Frame} {called : Routine}, F.Serves roots root → ¬ F.Calls called) : called = root ∧ stack = [] := by
  induction h with
  | nil => exact ⟨rfl, rfl⟩
  | cons hc hs _ _ ih =>
    obtain ⟨rfl, -⟩ := ih
    exact absurd hc (hleaf hs)

theorem Stacked.called_of_awaitExit {c : ChildId} (h : Stacked roots (.awaitExit c) called stack) :
    called = .awaitExit c :=
  (h.of_leaf Frame.Serves.not_calls_of_awaitExit).1

theorem Stacked.called_of_reads (h : Stacked roots root called stack) (hr : root.reads = true) :
    called = root ∨ ∃ c, called = .awaitExit c := by
  induction h with
  | nil => exact .inl rfl
  | cons hc hs _ _ ih =>
    rcases ih with rfl | ⟨c, rfl⟩
    · exact .inr (hs.calls_of_reads hr hc)
    · exact absurd hc hs.not_calls_of_awaitExit

/-- Nothing asks for diagnostics but who was asked to, or was to check a file. -/
theorem Stacked.root_of_request {file : Json} {limit : Option Seconds}
    (h : Stacked roots root (.request file limit) stack) :
    root = .request file limit ∨ ∃ name context limit', root = .checkFile name context limit' := by
  cases h with
  | nil => exact .inl rfl
  | cons hc hs _ h =>
    cases hc
    cases hs
    cases h with
    | nil => exact .inr ⟨_, _, _, rfl⟩
    | cons hc => cases hc

/-- A task whose time is limited is not the one that limits it. -/
theorem Stacked.root_ne_of_within {limit : Seconds} {inner : Routine} (h : Stacked roots root (.within limit inner) stack) :
    root ≠ inner := by
  cases h with
  | nil =>
    intro heq
    have hsize := congrArg sizeOf heq
    simp at hsize
  | cons hc hs hu h =>
    cases hc with
    | requesting file seq limit opening =>
      cases hs with
      | requesting =>
        rcases h.root_of_request with rfl | ⟨name, context, limit', rfl⟩ <;> exact fun heq => by cases heq
    | terminating c =>
      rintro rfl
      cases hs
      cases h.called_of_awaitExit

/-! ## While the loop is extended -/

theorem Frame.Serves.mono (h : F.Serves roots r) (hr : ∀ {u r}, roots u = some r → roots' u = some r) :
    F.Serves roots' r := by
  cases h with
  | finishing h he => exact .finishing h he
  | introducing h => exact .introducing h
  | expecting h => exact .expecting h
  | timing w limit hu hi => exact .timing w limit (hr hu) hi
  | overdue limit hu => exact .overdue limit (hr hu)
  | lapsed w limit hu => exact .lapsed w limit (hr hu)
  | ending h =>
    refine .ending fun u hu => ?_
    obtain ⟨r, hroot, hreads⟩ := h u hu
    exact ⟨r, hr hroot, hreads⟩
  | finishingCheck e files context limit => exact .finishingCheck e files context limit
  | _ => constructor

theorem Routine.Valid.mono (h : r.Valid roots) (hr : ∀ {u r}, roots u = some r → roots' u = some r) : r.Valid roots' := by
  cases r with
  | cancelAndWait u =>
    obtain ⟨inner, hroot, hinner⟩ := h
    exact ⟨inner, hr hroot, hinner⟩
  | endTasks t tasks =>
    intro u hu
    obtain ⟨reader, hroot, hreads⟩ := h u hu
    exact ⟨reader, hr hroot, hreads⟩
  | within limit inner => exact h
  | _ => trivial

theorem Routine.Minds.mono (h : called.Minds roots r) (hr : ∀ {u r}, roots u = some r → roots' u = some r) :
    called.Minds roots' r := by
  intro u hu
  obtain ⟨limit, inner, hserved, hroot⟩ := h u hu
  exact ⟨limit, inner, hserved, hr hroot⟩

theorem Stacked.mono (h : Stacked roots root called stack) (hr : ∀ {u r}, roots u = some r → roots' u = some r) :
    Stacked roots' root called stack := by
  induction h with
  | nil => exact .nil
  | cons hc hs hu _ ih => exact .cons hc (hs.mono hr) (hu.mono hr) ih

end roots

section keeps

variable {role role' : FutureId → Role} {m m' : Loop} {root : Routine} {F : Frame} {f : FutureId}
  {th : Thread Routine Frame Value Failure}

/-- Roles that agree on what is there. -/
def Agrees (role role' : FutureId → Role) (m : Loop) : Prop := ∀ f, f < m.futures.size → role' f = role f

theorem Loop.HasRole.agrees {k : Role} (h : m.HasRole role k f) (hr : Agrees role role' m) : m.HasRole role' k f :=
  ⟨h.1, (hr f h.1.lt_size).trans h.2⟩

theorem Frame.Awaits.keeps (h : F.Awaits role m f) (hk : m.Keeps m') (hr : Agrees role role' m) :
    F.Awaits role' m' f := by
  cases h with
  | locking h => exact .locking ((h.agrees hr).keeps hk)
  | getting l h => exact .getting l ((h.agrees hr).keeps hk)
  | ending t tasks h hu => exact .ending t tasks (hk.owner h) (hu.keeps hk)
  | timing u h => exact .timing u ((h.agrees hr).keeps hk)
  | cancelWaiting u w h => exact .cancelWaiting u w ((h.agrees hr).keeps hk)
  | gated t call fails w h => exact .gated t call fails w ((h.agrees hr).keeps hk)
  | exiting h => exact .exiting ((h.agrees hr).keeps hk)
  | reading t c decoder h => exact .reading t c decoder ((h.agrees hr).keeps hk)
  | draining c h => exact .draining c ((h.agrees hr).keeps hk)
  | readSource file context diagnostics h => exact .readSource file context diagnostics ((h.agrees hr).keeps hk)
  | gathered members h => exact .gathered members ((h.agrees hr).keeps hk)

theorem Frame.Woke.keeps {o : Ending} (h : F.Woke role m o) (hk : m.Keeps m') (hr : Agrees role role' m)
    (hd : ∀ {c}, m.state.IsDead c → m'.state.IsDead c) : F.Woke role' m' o := by
  have hwoke : ∀ {k : Role} {w : FutureId},
      (m.HasRole role k w ∧ ∃ o', m.outcome? w = some o' ∧ (o = o' ∨ o = .cancelled)) →
      m'.HasRole role' k w ∧ ∃ o', m'.outcome? w = some o' ∧ (o = o' ∨ o = .cancelled) :=
    fun ⟨hw, o', ho', ho⟩ => ⟨(hw.agrees hr).keeps hk, o', hk.outcome hw.1 ho', ho⟩
  cases F with
  | locking w => exact hwoke h
  | getting l g => exact hwoke h
  | exiting c => exact fun v hv => hd (h v hv)
  | _ => trivial

/-- A frame that waited is woken by what it waited for. -/
theorem Frame.Awaits.woke {o o' : Ending} (h : F.Awaits role m f) (ht : m.Tidy role) (ho' : m.outcome? f = some o')
    (ho : o = o' ∨ o = .cancelled) : F.Woke role m o := by
  cases h with
  | locking h => exact ⟨h, o', ho', ho⟩
  | getting l h => exact ⟨h, o', ho', ho⟩
  | exiting h =>
    rintro v rfl
    rcases ho with rfl | ho
    · exact ht.exits h.2 ho'
    · cases ho
  | _ => trivial

/-- A frame that called something did not wait itself. -/
theorem Frame.Calls.woke {o : Ending} {called : Routine} (h : F.Calls called) : F.Woke role m o := by
  cases h <;> trivial

theorem Frame.Awaits.isWait (h : F.Awaits role m f) : F.isWait = true := by
  cases h <;> rfl

theorem Frame.Awaits.lt_size (h : F.Awaits role m f) : f < m.futures.size := by
  cases h with
  | ending t tasks h hu => exact lt_size_of_owner? h
  | _ => rename_i h; exact h.1.lt_size

theorem ThreadFits.keeps (h : ThreadFits role m root th) (hk : m.Keeps m') (hr : Agrees role role' m)
    (hd : ∀ {c}, m.state.IsDead c → m'.state.IsDead c) : ThreadFits role' m' root th := by
  cases h with
  | fresh => exact .fresh
  | begins hv hr' h => exact .begins (hv.mono hk.routine) hr' (h.mono hk.routine)
  | ends h => exact .ends fun v hv => (h v hv).mono hd
  | resumes hs hg hw h =>
    exact .resumes (hs.mono hk.routine) (hg.mono hd) (hw.keeps hk hr hd) (h.mono hk.routine)
  | waits hs ha h => exact .waits (hs.mono hk.routine) (ha.keeps hk hr) (h.mono hk.routine)

end keeps

end DiagnosticsClient
