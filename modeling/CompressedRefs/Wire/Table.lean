import CompressedRefs.Wire.ByteOrder
import CompressedRefs.Wire.Error
import CompressedRefs.Wire.Transfer

/-!
# Tables of references on a channel

References are written and read one at a time, four bytes each, with nothing
around them.  A table of addresses is encoded as it is written, so an address
that is refused comes to light only when all before it are on the channel.  A
table is read by count, and a count that the input does not hold is an error of
the channel: reading stops where the input does, however large the count.

## Main definitions

* `writeRef`, `readRef` — one reference.
* `writeAddresses`, `readAddresses` — a table of addresses.
-/

namespace CompressedRefs.Wire

/-- Write one reference. -/
def writeRef (order : ByteOrder) (r : Ref) (script : Script) : Transfer WireError Unit :=
  (writeAll (order.serialize r) script).mapResult (Except.mapError WireError.io)

/-- Read one reference off the front of the unread bytes. -/
def readRef (order : ByteOrder) (unread : List UInt8) (script : Script) : Transfer WireError Ref :=
  let t := readExact 4 unread script
  t.mapResult fun result =>
    (result.mapError WireError.io).map fun _ => order.deserialize t.moved

/-- Encode and write addresses, the first of which has the given index. -/
def writeAddressesFrom (order : ByteOrder) : Nat → List Address → Script → Transfer WireError Unit
  | _, [], script => .pure () script
  | index, a :: as, script =>
    match a.encode with
    | .error e => .fail (.outOfRange index e) script
    | .ok r =>
      (writeRef order r script).andThen fun _ rest => writeAddressesFrom order (index + 1) as rest

/-- Encode and write addresses, up to the first that is refused. -/
def writeAddresses (order : ByteOrder) (as : List Address) (script : Script) :
    Transfer WireError Unit :=
  writeAddressesFrom order 0 as script

/-- Read and decode `count` references off the front of the unread bytes. -/
def readAddresses (order : ByteOrder) :
    Nat → List UInt8 → Script → Transfer WireError (List Address)
  | 0, _, script => .pure [] script
  | count + 1, unread, script =>
    (readRef order unread script).andThen fun r rest =>
      (readAddresses order count (unread.drop 4) rest).map (r.decode :: ·)

@[simp] theorem writeAddresses_nil (order : ByteOrder) (script : Script) :
    writeAddresses order [] script = .pure () script := rfl

theorem writeAddressesFrom_cons_of_representable (order : ByteOrder) (index : Nat) {a : Address}
    (h : a.Representable) (as : List Address) (script : Script) :
    writeAddressesFrom order index (a :: as) script =
      (writeRef order a.truncate script).andThen fun _ rest =>
        writeAddressesFrom order (index + 1) as rest := by
  rw [writeAddressesFrom, Address.encode_of_representable h]

theorem writeAddressesFrom_cons_of_not_representable (order : ByteOrder) (index : Nat) {a : Address}
    (h : ¬ a.Representable) (as : List Address) (script : Script) :
    writeAddressesFrom order index (a :: as) script = .fail (.outOfRange index ⟨a⟩) script := by
  rw [writeAddressesFrom, Address.encode_of_not_representable h]

@[simp] theorem readAddresses_zero (order : ByteOrder) (unread : List UInt8) (script : Script) :
    readAddresses order 0 unread script = .pure [] script := rfl

theorem readAddresses_succ (order : ByteOrder) (count : Nat) (unread : List UInt8)
    (script : Script) :
    readAddresses order (count + 1) unread script =
      (readRef order unread script).andThen fun r rest =>
        (readAddresses order count (unread.drop 4) rest).map (r.decode :: ·) := rfl

end CompressedRefs.Wire
