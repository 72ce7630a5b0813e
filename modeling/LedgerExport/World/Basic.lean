import LedgerExport.World.Jobs
import LedgerExport.World.Store

/-!
# A world to run programs in

A store in memory and a service that runs exports, which together answer every call.
-/

namespace LedgerExport

open World

/-- A store and the state of a service. -/
structure World (τ : Type) where
  /-- The store. -/
  store : Store
  /-- The state of the service. -/
  jobs : τ

namespace World

variable {α τ : Type}

/-- Lets the store answer. -/
def inStore (f : Store → α × Store) (w : World τ) : α × World τ :=
  let (a, store) := f w.store
  (a, { w with store })

/-- Lets the service answer. -/
def inJobs (f : τ → α × τ) (w : World τ) : α × World τ :=
  let (a, jobs) := f w.jobs
  (a, { w with jobs })

/-- Answers a call. -/
def respond (service : JobService τ) : Responder (World τ)
  | .list bucket keyPrefix delimiter => inStore (Store.list bucket keyPrefix delimiter)
  | .get bucket key => inStore (Store.get bucket key)
  | .copy bucket source destination => inStore (Store.copy bucket source destination)
  | .delete bucket key => inStore (Store.delete bucket key)
  | .probe bucket key => inStore (Store.probe bucket key)
  | .describe ledger exportId => inJobs (service.describe ledger exportId)
  | .submit request => inJobs (service.submit request)

/-- How long calls take, in milliseconds. -/
structure Delays where
  /-- A call of the store. -/
  store : Nat
  /-- Looking up an export. -/
  describe : Nat
  /-- Submitting an export. -/
  submit : Nat
deriving DecidableEq, Repr

/-- How long a call takes. -/
def Delays.cost (d : Delays) : Call → Nat
  | .describe .. => d.describe
  | .submit _ => d.submit
  | _ => d.store

end World

end LedgerExport
