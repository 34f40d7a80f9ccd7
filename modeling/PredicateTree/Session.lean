import PredicateTree.Store

/-!
# Sessions and actions

Work on trees leaves traces: new things take marks, new parameters take serial numbers, functions of
a caller record their calls, the steps of the library are logged, and lists and objects change.  A
`Session` holds all of it, and an `Action` is a computation in a session.  Every query is an action
that asks about the store of the session.

An action may call functions, and leaves it to its caller how that is done (`Action.call`).  It ends
with a value, with a fault, or with its fuel spent (`Outcome`).  A handler sees
faults only: that the fuel is spent is no fault of the tree, and it always ends the whole action.
-/

namespace PredicateTree

/-- A line of the log: the activity that wrote it, and its text. -/
structure LogLine where
  source : String
  text : String

/-- A recorded call: the name of the function and its arguments. -/
structure RecordedCall where
  function : Value
  arguments : List Value

/-- What actions leave behind. -/
structure Session where
  /-- The next unused mark. -/
  nextMark : Nat := 1
  /-- The next unused serial number of a parameter. -/
  nextUid : Nat := 1
  /-- What can change. -/
  store : Store := {}
  /-- The recorded calls, last one first. -/
  calls : List RecordedCall := []
  /-- Whether the steps of the library are logged. -/
  logging : Bool := false
  /-- The log, last line first. -/
  log : List LogLine := []

/-- How an action ends. -/
inductive Outcome (α : Type) where
  | done (a : α)
  | raised (f : Fault)
  | exhausted

/-- Calls functions with arguments in a session. -/
abbrev Caller := Value → List Value → Session → Outcome Value × Session

/-- A computation in a session, which may call functions. -/
def Action (α : Type) : Type := Caller → Session → Outcome α × Session

namespace Action

variable {α β : Type}

/-- Runs an action in a session; `call` calls functions. -/
def run (x : Action α) (call : Caller) (s : Session) : Outcome α × Session := x call s

/-- Calls a function with arguments. -/
@[inline]
def call (f : Value) (args : List Value) : Action Value := fun call s => call f args s

/-- Ends with a value. -/
@[inline]
protected def pure (a : α) : Action α := fun _ s => (.done a, s)

/-- Goes on with the value of an action. -/
@[inline]
protected def bind (x : Action α) (k : α → Action β) : Action β := fun call s =>
  match x call s with
  | (.done a, s') => k a call s'
  | (.raised f, s') => (.raised f, s')
  | (.exhausted, s') => (.exhausted, s')

/-- Ends with a fault. -/
@[inline]
def raise (f : Fault) : Action α := fun _ s => (.raised f, s)

/-- Ends with the fuel spent. -/
@[inline]
def exhausted : Action α := fun _ s => (.exhausted, s)

/-- Runs an action and hands its fault, if it ends with one, to a handler. -/
@[inline]
def handle (x : Action α) (h : Fault → Action α) : Action α := fun call s =>
  match x call s with
  | (.raised f, s') => h f call s'
  | other => other

@[always_inline]
instance : Monad Action where
  pure := Action.pure
  bind := Action.bind

@[always_inline]
instance : MonadExceptOf Fault Action where
  throw := Action.raise
  tryCatch := Action.handle

/-- A pure computation that may fail, as an action. -/
@[inline]
def ofExcept : Except Fault α → Action α
  | .ok a => Action.pure a
  | .error f => Action.raise f

@[always_inline]
instance : MonadLift (Except Fault) Action := ⟨ofExcept⟩

/-- A question about the values in the session, as an action. -/
@[inline]
def ofQuery (q : Query α) : Action α := fun _ s =>
  match q.run s.store with
  | .ok a => (.done a, s)
  | .error f => (.raised f, s)

@[always_inline]
instance : MonadLift Query Action := ⟨ofQuery⟩

/-- The store as it is. -/
@[inline]
def store : Action Store := fun _ s => (.done s.store, s)

@[always_inline]
instance : MonadReaderOf Store Action := ⟨store⟩

/-- Changes the store.  The session is taken apart first, so that the store is changed in place. -/
@[inline]
def updateStore (f : Store → Store) : Action Unit
  | _, ⟨nextMark, nextUid, store, calls, logging, log⟩ =>
    (.done (), ⟨nextMark, nextUid, f store, calls, logging, log⟩)

/-- The session as it is. -/
@[inline]
def session : Action Session := fun _ s => (.done s, s)

/-- Changes the session. -/
@[inline]
def update (f : Session → Session) : Action Unit := fun _ s => (.done (), f s)

/-- Takes an unused mark. -/
@[inline]
def freshMark : Action Nat := fun _ s =>
  (.done s.nextMark, { s with nextMark := s.nextMark + 1 })

/-- Takes an unused serial number of a parameter. -/
@[inline]
def freshUid : Action Nat := fun _ s => (.done s.nextUid, { s with nextUid := s.nextUid + 1 })

/-- Records a call. -/
def recordCall (c : RecordedCall) : Action Unit := update fun s => { s with calls := c :: s.calls }

/-- The recorded calls in order, which are forgotten. -/
def takeCalls : Action (List RecordedCall) := fun _ s =>
  (.done s.calls.reverse, { s with calls := [] })

/-- An integer; the small ones are shared. -/
def newInt (i : Int) : Action Value :=
  if -5 ≤ i ∧ i ≤ 256 then pure (.ofInt i) else do return .int (← freshMark) i

/-- A floating-point number that is told apart from all others. -/
def newFloat (x : Float) : Action Value := do return .float (← freshMark) x

/-- A text that was computed.  It is told apart from all others, but there is one empty text. -/
def newText (s : String) : Action Value :=
  if s.isEmpty then pure (.ofText s) else do return .str (← freshMark) s

/-- Whether a text is one of the first 256 characters alone. -/
def isShortText (s : String) : Bool :=
  s.utf8ByteSize ≤ 2 && s.length = 1 && s.toList.all fun c => c.toNat < 256

/-- A text that was read, or cut out of another.  It is told apart from all others, but there is one
text of each of the first 256 characters. -/
def textPiece (s : String) : Action Value := if isShortText s then pure (.ofText s) else newText s

/-- A list that is told apart from all others. -/
def newRope (items : Rope Value) : Action Value := fun call s =>
  let address := s.store.lists.size
  (updateStore (·.withList items) >>= fun _ => pure (.list address)) call s

/-- A list of given items. -/
def newList (items : List Value) : Action Value := newRope (.items items.toArray)

/-- A list of the items of one list and then those of another. -/
def joinedLists (address other : Nat) : Action Value := fun call s =>
  newRope ((s.store.list address).append (s.store.list other)) call s

/-- How often more is added to a list while its items are gone over. -/
def rounds : Nat := 0x10000000

/-- A tuple that is told apart from all others. -/
def newTuple (items : List Value) : Action Value := do return .tuple (← freshMark) items

/-- A dictionary that is told apart from all others. -/
def newDict (entries : List (Value × Value)) : Action Value := do
  return .dict (← freshMark) entries

/-- A new object. -/
def newStored (o : StoredObject) : Action Value := fun call s =>
  let address := s.store.objects.size
  (updateStore (·.withObject o) >>= fun _ => pure (.object address)) call s

/-- A new object of a type with attributes. -/
def newObject (type : StaticType) (attributes : Attributes) : Action Value :=
  newStored { type := type, attributes := attributes }

/-- The type of a value. -/
def typeOf (v : Value) : Action StaticType := fun _ s => (.done (s.store.typeOf v), s)

/-- Fails with a failure of an operation on values. -/
@[inline]
def fail (f : Failure) : Action α := raise (.failure f)

@[simp] theorem run_pure (a : α) (c : Caller) (s : Session) :
    (pure a : Action α).run c s = (.done a, s) := rfl

@[simp] theorem run_raise (f : Fault) (c : Caller) (s : Session) :
    (raise f : Action α).run c s = (.raised f, s) := rfl

@[simp] theorem run_call (f : Value) (args : List Value) (c : Caller) (s : Session) :
    (call f args).run c s = c f args s := rfl

theorem pure_injective {a b : α} (h : (pure a : Action α) = pure b) : a = b := by
  have hrun := congrArg (fun x : Action α => (x.run (fun _ _ s => (.exhausted, s)) {}).1) h
  exact Outcome.done.inj hrun

theorem run_bind (x : Action α) (k : α → Action β) (c : Caller) (s : Session) :
    (x >>= k).run c s =
      match x.run c s with
      | (.done a, s') => (k a).run c s'
      | (.raised f, s') => (.raised f, s')
      | (.exhausted, s') => (.exhausted, s') := rfl

theorem run_bind_done {x : Action α} {k : α → Action β} {c : Caller} {s s' : Session} {a : α}
    (h : x.run c s = (.done a, s')) : (x >>= k).run c s = (k a).run c s' := by
  rw [run_bind, h]

theorem run_bind_raised {x : Action α} {k : α → Action β} {c : Caller} {s s' : Session}
    {f : Fault} (h : x.run c s = (.raised f, s')) : (x >>= k).run c s = (.raised f, s') := by
  rw [run_bind, h]

theorem run_bind_exhausted {x : Action α} {k : α → Action β} {c : Caller} {s s' : Session}
    (h : x.run c s = (.exhausted, s')) : (x >>= k).run c s = (.exhausted, s') := by
  rw [run_bind, h]

theorem exists_of_run_bind_done {x : Action α} {k : α → Action β} {c : Caller} {s t : Session}
    {b : β} (h : (x >>= k).run c s = (.done b, t)) :
    ∃ a u, x.run c s = (.done a, u) ∧ (k a).run c u = (.done b, t) := by
  rw [run_bind] at h
  split at h
  · rename_i a u hx
    exact ⟨a, u, hx, h⟩
  · cases h
  · cases h

/-- What goes on the same wherever something comes to a result goes on the same. -/
theorem run_bind_congr {x : Action α} {k l : α → Action β} {c : Caller} {s : Session}
    (h : ∀ a t, x.run c s = (.done a, t) → (k a).run c t = (l a).run c t) :
    (x >>= k).run c s = (x >>= l).run c s := by
  rcases hx : x.run c s with ⟨a | f | _, t⟩
  · rw [run_bind_done hx, run_bind_done hx]
    exact h a t hx
  · rw [run_bind_raised hx, run_bind_raised hx]
  · rw [run_bind_exhausted hx, run_bind_exhausted hx]

theorem run_handle_done {x : Action α} {h : Fault → Action α} {c : Caller} {s s' : Session} {a : α}
    (hx : x.run c s = (.done a, s')) : (x.handle h).run c s = (.done a, s') := by
  have hx' : x c s = (.done a, s') := hx
  simp [run, handle, hx']

theorem run_handle_raised {x : Action α} {h : Fault → Action α} {c : Caller} {s s' : Session}
    {f : Fault} (hx : x.run c s = (.raised f, s')) :
    (x.handle h).run c s = (h f).run c s' := by
  have hx' : x c s = (.raised f, s') := hx
  simp [run, handle, hx']

theorem run_handle_exhausted {x : Action α} {h : Fault → Action α} {c : Caller} {s s' : Session}
    (hx : x.run c s = (.exhausted, s')) : (x.handle h).run c s = (.exhausted, s') := by
  have hx' : x c s = (.exhausted, s') := hx
  simp [run, handle, hx']

theorem id_map_action (x : Action α) : id <$> x = x := by
  funext c s
  show (match x c s with
    | (.done a, s') => (Outcome.done a, s')
    | (.raised f, s') => (.raised f, s')
    | (.exhausted, s') => (.exhausted, s')) = x c s
  rcases x c s with ⟨_ | _ | _, _⟩ <;> rfl

theorem bind_assoc_action {γ : Type} (x : Action α) (k : α → Action β) (l : β → Action γ) :
    x >>= k >>= l = x >>= fun a => k a >>= l := by
  funext c s
  show Action.bind (Action.bind x k) l c s = Action.bind x (fun a => Action.bind (k a) l) c s
  unfold Action.bind
  rcases x c s with ⟨_ | _ | _, _⟩ <;> rfl

instance : LawfulMonad Action :=
  LawfulMonad.mk' Action id_map_action (fun _ _ => rfl) bind_assoc_action

end Action

end PredicateTree
