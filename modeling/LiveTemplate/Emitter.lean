import LiveTemplate.Dispatch

/-!
# Emitters

An emitter owns subscriptions.  Each has a revoker, which gives the
subscription up once and then has no effect; an emitter can revoke all of its
own.  Destroying an emitter runs the hooks registered so far, in order, and
revokes what there is afterwards.
-/

namespace LiveTemplate

variable {σ : Type}

/-- Take a listener off its source. -/
def Subscription.drop (subscription : Subscription) : Act σ Unit :=
  match subscription.source with
  | .observable o => Observable.unsubscribe o subscription.listener
  | .node n => NodeEvents.unsubscribe n subscription.listener

namespace Revoker

/-- A revoker for a subscription, or one that is revoked already. -/
def create (subscription : Option Subscription) : Act σ RevokerId :=
  modifyGet fun world =>
    let (index, revokers) := world.revokers.alloc subscription
    (⟨index⟩, { world with revokers := revokers })

/-- Give up the subscription, if that has not happened yet. -/
def revoke (r : RevokerId) : Act σ Unit := do
  match (← get).subscription? r with
  | none => pure ()
  | some subscription =>
      modify fun world =>
        { world with revokers := world.revokers.put r.index none }
      subscription.drop

def describe (world : World σ) (r : RevokerId) : String :=
  "Revoker \x7b revoked: " ++
    (if world.isRevoked r then "true" else "false") ++ " \x7d"

end Revoker

namespace Emitter

def create : Act σ EmitterId :=
  modifyGet fun world =>
    let (index, emitters) := world.emitters.alloc ⟨[], []⟩
    (⟨index⟩, { world with emitters := emitters })

def update (e : EmitterId) (change : Emitter → Emitter) : Act σ Unit :=
  modify fun world =>
    { world with emitters := world.emitters.modify e.index change }

/-- Own a subscription; revoked ones are forgotten on the way. -/
def own (e : EmitterId) (subscription : Subscription) : Act σ RevokerId := do
  let r ← Revoker.create (some subscription)
  let world ← get
  update e fun emitter =>
    { emitter with
      subscriptions :=
        emitter.subscriptions.filter (fun r => !world.isRevoked r) ++ [r] }
  return r

def listenToObservable (e : EmitterId) (o : ObservableId) (event : String)
    (reaction : Reaction) : Act σ RevokerId := do
  let listener ← Observable.subscribe o event reaction
  own e ⟨.observable o, listener⟩

def listenToNode (e : EmitterId) (n : NodeId) (type : String)
    (action : EventAction) : Act σ RevokerId := do
  let listener ← NodeEvents.subscribe n type action
  own e ⟨.node n, listener⟩

/-- Revoke all subscriptions. -/
def stopListening (e : EmitterId) : Act σ Unit := do
  let owned := ((← get).emitter e).subscriptions
  update e fun emitter => { emitter with subscriptions := [] }
  owned.forM Revoker.revoke

/-- How many subscriptions have not been revoked. -/
def liveCount (world : World σ) (e : EmitterId) : Nat :=
  (world.emitter e).subscriptions.countP (fun r => !world.isRevoked r)

/-- Register a handler to run on destruction. -/
def beforeDestroy (e : EmitterId) (hook : Handler) : Act σ Unit :=
  update e fun emitter => { emitter with hooks := emitter.hooks ++ [hook] }

def destroy (host : Host σ) (e : EmitterId) : Act σ Unit := do
  let hooks := ((← get).emitter e).hooks
  update e fun emitter => { emitter with hooks := [] }
  keeping (.refs [.emitter e]) (hooks.forM host.destroy)
  stopListening e

def describe (world : World σ) (e : EmitterId) : String :=
  "Emitter \x7b live: " ++ toString (liveCount world e) ++ " \x7d"

end Emitter

end LiveTemplate
