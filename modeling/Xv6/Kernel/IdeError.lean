import Xv6.Kernel.Bio
import Xv6.Kernel.Ide

/-!
# The buffer cache over `ide.c`

`bread` and `bwrite` of `bio.c` over the driver of `ide.c`, with the status the controller reports.
A buffer stays locked from the checks of `iderw` until `ideintr` is done with it, so a request is
one step here. Each step comes with the value of the status port once the controller is done. A
command that ends with an error has read or written nothing. A wait that does not end is no step.
-/

namespace Xv6

open Lib

namespace Ide

/-- `IDE_BSY`. -/
def ideBsy : UInt8 := 0x80

/-- `IDE_DRDY`. -/
def ideDrdy : UInt8 := 0x40

/-- `IDE_DF`. -/
def ideDf : UInt8 := 0x20

/-- `IDE_ERR`. -/
def ideErr : UInt8 := 0x01

/-- The status reports an error. -/
def failed (status : UInt8) : Bool := status &&& (ideDf ||| ideErr) != 0

/-- `idewait`, if it ends. -/
def idewait (checkerr : Bool) (status : UInt8) : Option Int :=
  if status &&& (ideBsy ||| ideDrdy) ≠ ideDrdy then none
  else if checkerr && failed status then some (-1)
  else some 0

/-- The checks `iderw` and `idestart` make on a request. -/
def driver (havedisk1 : Bool) : Driver := fun dev blockno =>
  if dev ≠ 0 ∧ havedisk1 = false then some "iderw: ide disk 1 not present"
  else if fsSize ≤ blockno.toNat then some "incorrect blockno"
  else none

/-- `ideintr`, for the buffer at the head of the queue and the block that `insl` would read. -/
def ideintr (b : Xv6.Buf) (status : UInt8) (block : Block) : Option Xv6.Buf :=
  if b.dirty then some { b with valid := true, dirty := false }
  else
    (idewait true status).map fun (r : Int) =>
      -- Valid, whether the block was read or not.
      { b with data := if 0 ≤ r then block else b.data, valid := true, dirty := false }

end Ide

namespace CacheState

variable {Client : Type} [DecidableEq Client]

/-- `iderw`, from its checks to the end of the request. -/
def iderwOver (havedisk1 : Bool) (s : CacheState Client) (i : Fin nBuf) (status : UInt8) :
    Option (CacheState Client) :=
  let b := s.buf i
  if b.locked = false then some (s.panic "iderw: buf not locked")
  else if b.valid = true ∧ b.dirty = false then some (s.panic "iderw: nothing to do")
  else match Ide.driver havedisk1 b.dev b.blockno with
    | some message => some (s.panic message)
    | none =>
      let disk :=
        if b.dirty && !Ide.failed status then Function.update s.disk b.key b.data else s.disk
      (Ide.ideintr b status (s.disk b.key)).map fun b => { s.setBuf i b with disk := disk }

/-- The rest of `bread`, once the buffer is locked. -/
def breadOver (havedisk1 : Bool) (s : CacheState Client) (i : Fin nBuf) (status : UInt8) :
    Option (CacheState Client) :=
  if (s.buf i).valid = false then s.iderwOver havedisk1 i status else some s

/-- `bwrite`. -/
def bwriteOver (havedisk1 : Bool) (s : CacheState Client) (i : Fin nBuf) (status : UInt8) :
    Option (CacheState Client) :=
  if (s.buf i).locked = false then some (s.panic "bwrite")
  else (s.setBuf i { s.buf i with dirty := true }).iderwOver havedisk1 i status

/-- The step relation. The requests are those of `ide.c`. -/
def stepOver (havedisk1 : Bool) (s : CacheState Client) (label : CacheEvent Client × UInt8) :
    Option (CacheState Client) :=
  if s.panicked.isSome then none
  else match label.1 with
    | .read c dev blockno data =>
      match s.session c with
      | .locked r =>
        if r.key = (dev, blockno) then
          (s.breadOver havedisk1 r.buf label.2).bind fun s =>
            if s.panicked.isSome then some s
            else if (s.buf r.buf).data = data then some (s.goto c (.holding r true))
            else none
        else none
      | _ => none
    | .bwrite c =>
      match s.session c with
      | .holding r _ =>
        (s.bwriteOver havedisk1 r.buf label.2).map fun s => s.goto c (.holding r true)
      | _ => none
    | event => s.step (Ide.driver havedisk1) event

end CacheState

end Xv6
