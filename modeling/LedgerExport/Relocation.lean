import LedgerExport.Assessment
import LedgerExport.Program

/-!
# Relocation

Moving an object within a bucket, which has no call of its own: copy it, make sure that the copy is
there, and delete it. A move that was made before, wholly or in part, can be made again.
-/

namespace LedgerExport

namespace Move

/-- Moves an object. An object that is gone has been moved already if the copy is there. -/
def relocate (bucket : String) (m : Move) : Program (Except StoreFailure Unit) :=
  .call (.copy bucket m.source m.destination) fun
    | .ok () => .call (.probe bucket m.destination) fun
      | .ok true => .ask (.delete bucket m.source)
      | .ok false => .done (.error (.copyNotVerified m.source m.destination))
      | .error e => .done (.error e)
    | .error e =>
      if e.isNotFound then .call (.probe bucket m.destination) fun
        | .ok true => .done (.ok ())
        | .ok false => .done (.error e)
        | .error e' => .done (.error e')
      else .done (.error e)

/-- Moves objects one after the other, up to the first move that fails. -/
def relocateAll (bucket : String) : List Move → Program (Except StoreFailure Unit)
  | [] => .done (.ok ())
  | m :: rest => (m.relocate bucket).bind fun
    | .ok () => relocateAll bucket rest
    | .error e => .done (.error e)

end Move

end LedgerExport
