import SchemaRegistry.Registry.Basic

/-!
# Progress of a load

Loading schemas changes the store and a registry, records events, and runs the compiler. All of it
is kept when a step fails: an `Action` that throws leaves the progress made until then.
-/

namespace SchemaRegistry

/-- What a load has come to: the store and the registry it works on, and what it has done
besides. -/
structure Progress where
  store : Store
  registry : Registry
  events : Array Event
  /-- The compiler command lines run so far. -/
  commands : Array (List String)

namespace Progress

/-- Nothing loaded yet. -/
def empty : Progress := ⟨.empty, .empty, #[], #[]⟩

/-- Fresh progress over what is there already. -/
def start (store : Store) (registry : Registry) : Progress := ⟨store, registry, #[], #[]⟩

/-- Records an event behind those before it. -/
def note (p : Progress) (e : Event) : Progress := { p with events := p.events.push e }

/-- Records events one after another. -/
def noteAll (p : Progress) (es : List Event) : Progress := es.foldl note p

/-- Puts a message into the store and registers it. -/
def registerMessage (p : Progress) (m : Message) : Progress :=
  { p with
    store := p.store.addMessage m
    registry := p.registry.addMessage m.name p.store.messages.size }

/-- Puts an enum into the store and registers it. -/
def registerEnum (p : Progress) (e : Enumeration) : Progress :=
  { p with
    store := p.store.addEnum e
    registry := p.registry.addEnum e.name p.store.enums.size }

end Progress

/-- A computation that advances a load and may fail with an `ε`. -/
abbrev Action (ε α : Type) := EStateM ε Progress α

namespace Action

variable {ε α : Type}

/-- Ends with the error of `e`, if it is one. -/
def ofExcept (e : Except ε α) : Action ε α :=
  match e with
  | .ok a => pure a
  | .error err => throw err

/-- How an action ended, and the progress it made. -/
def outcome (a : Action ε α) (p : Progress) : Except ε α × Progress :=
  match a.run p with
  | .ok x p' => (.ok x, p')
  | .error e p' => (.error e, p')

/-! ## Running actions in sequence -/

variable {β δ : Type}

@[simp] theorem outcome_pure (a : α) (p : Progress) :
    (pure a : Action ε α).outcome p = (.ok a, p) := rfl

@[simp] theorem outcome_throw (e : ε) (p : Progress) :
    (throw e : Action ε α).outcome p = (.error e, p) := rfl

@[simp] theorem outcome_modify (f : Progress → Progress) (p : Progress) :
    (modify f : Action ε Unit).outcome p = (.ok (), f p) := rfl

/-- The second action starts from the progress of the first, and only if that succeeds. -/
theorem outcome_bind (a : Action ε α) (f : α → Action ε β) (p : Progress) :
    (a >>= f).outcome p =
      match a.outcome p with
      | (.ok x, q) => (f x).outcome q
      | (.error e, q) => (.error e, q) := by
  simp only [outcome, EStateM.run_bind]
  cases a.run p <;> rfl

@[simp] theorem outcome_ofExcept (e : Except ε α) (p : Progress) :
    (ofExcept e).outcome p = (e, p) := by
  cases e <;> rfl

/-- Renaming the error changes the result only. -/
theorem outcome_adaptExcept (a : Action ε α) (f : ε → δ) (p : Progress) :
    Action.outcome (EStateM.adaptExcept f a) p = ((a.outcome p).1.mapError f, (a.outcome p).2) := by
  simp only [outcome, EStateM.run, EStateM.adaptExcept]
  cases a p <;> rfl

end Action

end SchemaRegistry
