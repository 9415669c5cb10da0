import CompressedRefs.Proofs.Wire.FaultyReader
import CompressedRefs.Proofs.Wire.FaultyWriter

/-!
# Tables in two parts

A table that is written or read at one go is the same as two tables in a row, however the
channel behaves: the second part is started only after the first succeeded, and it finds the
bytes and the script that the first left.  Nothing is decided in front of the first call and
no call reaches from one reference into the next, so a table may be cut at any place.  All
that tells the two apart is that addresses are counted from the front of the whole table.

## Main definitions

* `WireError.shift` — an error of a part, told for the whole.
* `Buffer.inTurn` — two requests, the second only after a success of the first.

## Main statements

* `writeAddresses_append`, `readAddresses_add` — the two transfers in two parts.
* `Buffer.step_concatenates` — the requests in two parts, and a table of one address.
-/

namespace CompressedRefs

/-- The error of a table that has `k` addresses in front of it, told for all of them: the
index of a refused address is counted from the first. -/
def WireError.shift (k : Nat) : WireError → WireError
  | io e => io e
  | outOfRange index source => outOfRange (k + index) source

namespace Wire

theorem map_mapError {ε α β : Type} (f : ε → ε) (g : α → β) (result : Except ε α) :
    (result.mapError f).map g = (result.map g).mapError f := by
  cases result <;> rfl

/-! ## Writing in two parts -/

/-- A table with other addresses in front of it is written as it would be alone. -/
theorem writeAddressesFrom_add (order : ByteOrder) (k index : Nat) (as : List Address)
    (script : Script) :
    writeAddressesFrom order (k + index) as script =
      (writeAddressesFrom order index as script).mapResult
        (Except.mapError (WireError.shift k)) := by
  induction as generalizing index script with
  | nil => rfl
  | cons a as ih =>
    by_cases ha : a.Representable
    · have hio : ∀ err, (writeRef order a.truncate script).result = .error err →
          WireError.shift k err = err := by
        intro err herr
        obtain ⟨e, rfl, _⟩ := writeRef_of_error herr
        rfl
      rw [writeAddressesFrom_cons_of_representable order _ ha,
        writeAddressesFrom_cons_of_representable order _ ha, Transfer.andThen_mapError hio]
      congr 1
      funext _ rest
      exact ih (index + 1) rest
    · rw [writeAddressesFrom_cons_of_not_representable order _ ha,
        writeAddressesFrom_cons_of_not_representable order _ ha]
      rfl

/-- By induction on the addresses in front.  Those behind are counted on from where these end. -/
theorem writeAddressesFrom_append (order : ByteOrder) (index : Nat) (xs ys : List Address)
    (script : Script) :
    writeAddressesFrom order index (xs ++ ys) script =
      (writeAddressesFrom order index xs script).andThen fun _ rest =>
        writeAddressesFrom order (index + xs.length) ys rest := by
  induction xs generalizing index script with
  | nil => exact (Transfer.pure_andThen ..).symm
  | cons a xs ih =>
    have hindex : index + (a :: xs).length = index + 1 + xs.length := by
      rw [List.length_cons]
      omega
    rw [List.cons_append, hindex]
    by_cases ha : a.Representable
    · rw [writeAddressesFrom_cons_of_representable order _ ha,
        writeAddressesFrom_cons_of_representable order _ ha, Transfer.andThen_assoc]
      congr 1
      funext _ rest
      exact ih (index + 1) rest
    · rw [writeAddressesFrom_cons_of_not_representable order _ ha,
        writeAddressesFrom_cons_of_not_representable order _ ha, Transfer.fail_andThen]

/-- A table is written as its front and then its end, whose refusals are told for the whole. -/
theorem writeAddresses_append (order : ByteOrder) (xs ys : List Address) (script : Script) :
    writeAddresses order (xs ++ ys) script =
      (writeAddresses order xs script).andThen fun _ rest =>
        (writeAddresses order ys rest).mapResult
          (Except.mapError (WireError.shift xs.length)) := by
  rw [writeAddresses, writeAddressesFrom_append, Nat.zero_add]
  congr 1
  funext _ rest
  exact writeAddressesFrom_add order xs.length 0 ys rest

/-- One representable address is written as its reference. -/
theorem writeAddresses_singleton_of_representable (order : ByteOrder) {a : Address}
    (ha : a.Representable) (script : Script) :
    writeAddresses order [a] script = writeRef order a.truncate script := by
  rw [writeAddresses, writeAddressesFrom_cons_of_representable order 0 ha]
  rcases writeRef order a.truncate script with ⟨_ | _, moved, rest, calls⟩
  · rfl
  · rw [Transfer.andThen_mk_ok]
    simp only [writeAddressesFrom, Transfer.pure, List.append_nil, Nat.add_zero]

/-! ## Reading in two parts -/

/-- A table is read as its front and then, from where the front ended, its end. -/
theorem readAddresses_add (order : ByteOrder) (m n : Nat) (unread : List UInt8)
    (script : Script) :
    readAddresses order (m + n) unread script =
      (readAddresses order m unread script).andThen fun as rest =>
        (readAddresses order n (unread.drop (4 * m)) rest).map (as ++ ·) := by
  induction m generalizing unread script with
  | zero =>
    rw [readAddresses_zero, Transfer.pure_andThen, Nat.zero_add, Nat.mul_zero, List.drop_zero]
    exact (Transfer.map_id _).symm
  | succ m ih =>
    have hdrop : (unread.drop 4).drop (4 * m) = unread.drop (4 * (m + 1)) := by
      rw [List.drop_drop, Nat.mul_succ, Nat.add_comm]
    rw [Nat.add_right_comm, readAddresses_succ, readAddresses_succ, Transfer.andThen_assoc]
    congr 1
    funext r rest
    rw [ih, hdrop, Transfer.andThen_map, Transfer.map_andThen]
    congr 1
    funext as left
    rw [Transfer.map_map]
    rfl

/-- A table that was read has moved all its bytes. -/
theorem length_moved_readAddresses_of_ok {order : ByteOrder} {count : Nat} {unread : List UInt8}
    {script : Script} {as : List Address}
    (h : (readAddresses order count unread script).result = .ok as) :
    (readAddresses order count unread script).moved.length = 4 * count := by
  have hread := tableRead_readAddresses order count unread script
  rw [TableRead, h] at hread
  rw [hread.2.1, List.length_take, Nat.min_eq_left hread.1]

/-! ## Requests in turn -/

namespace Buffer

/-- The value of two requests that read tables one after the other. -/
def Value.append : Value → Value → Value
  | .addresses as, .addresses bs => .addresses (as ++ bs)
  | _, value => value

theorem map_addresses_append (as : List Address) (result : Except WireError (List Address)) :
    (result.map (as ++ ·)).map Value.addresses =
      (result.map Value.addresses).map (Value.addresses as).append := by
  cases result <;> rfl

/-- Two requests in turn.  An error of the first is the answer, and the second is not made;
otherwise the second is made of the buffer that the first left, and `join` makes one result
of the two. -/
def inTurn (b : Buffer) (first second : Step)
    (join : Value → Except WireError Value → Except WireError Value) : Answer × Buffer :=
  let one := b.step first
  match one.1.result with
  | .error _ => one
  | .ok value =>
    let two := one.2.step second
    (⟨join value two.1.result, one.1.wrote ++ two.1.wrote, two.1.length, two.1.position⟩, two.2)

theorem inTurn_of_error {b : Buffer} {first : Step} {e : WireError}
    (h : (b.step first).1.result = .error e) (second : Step)
    (join : Value → Except WireError Value → Except WireError Value) :
    b.inTurn first second join = b.step first := by
  simp only [inTurn, h]

/-- After a step that succeeded, the second one goes on in the buffer that it left. -/
theorem inTurn_of_ok {b : Buffer} {first : Step} {value : Value}
    (h : (b.step first).1.result = .ok value) (second : Step)
    (join : Value → Except WireError Value → Except WireError Value) :
    b.inTurn first second join =
      (⟨join value ((b.step first).2.step second).1.result,
        (b.step first).1.wrote ++ ((b.step first).2.step second).1.wrote,
        ((b.step first).2.step second).1.length, ((b.step first).2.step second).1.position⟩,
        ((b.step first).2.step second).2) := by
  simp only [inTurn, h]

/-- Writing a table in two parts: the second goes on where the first ended. -/
theorem step_writeAddresses_append (b : Buffer) (order : ByteOrder) (xs ys : List Address) :
    b.step (.writeAddresses order (xs ++ ys)) =
      b.inTurn (.writeAddresses order xs) (.writeAddresses order ys)
        fun _ => Except.mapError (WireError.shift xs.length) := by
  have hall : b.step (.writeAddresses order (xs ++ ys)) =
      b.answerWritten ((writeAddresses order xs b.writeScript).andThen fun _ rest =>
        (writeAddresses order ys rest).mapResult
          (Except.mapError (WireError.shift xs.length))) := by
    rw [step, writeAddresses_append]
  cases h : (writeAddresses order xs b.writeScript).result with
  | error e =>
    have hfirst : (b.step (.writeAddresses order xs)).1.result = .error e :=
      congrArg (Except.map fun _ => Value.written) h
    rw [inTurn_of_error hfirst, hall, Transfer.andThen_of_error h, ← h]
    rfl
  | ok u =>
    have hfirst : (b.step (.writeAddresses order xs)).1.result = .ok .written :=
      congrArg (Except.map fun _ => Value.written) h
    rw [inTurn_of_ok hfirst, hall, answerWritten, written_andThen_of_ok b h,
      Transfer.andThen_of_ok h]
    simp only [Transfer.result_mapResult, map_mapError]
    rfl

/-- Reading a table in two parts: the second starts from the position that the first left. -/
theorem step_readAddresses_add (b : Buffer) (order : ByteOrder) (m n : Nat) :
    b.step (.readAddresses order (m + n)) =
      b.inTurn (.readAddresses order m) (.readAddresses order n)
        fun value => Except.map value.append := by
  have hall : b.step (.readAddresses order (m + n)) =
      b.answerRead .addresses ((readAddresses order m b.unread b.readScript).andThen fun as rest =>
        (readAddresses order n (b.unread.drop (4 * m)) rest).map (as ++ ·)) := by
    rw [step, readAddresses_add]
  cases h : (readAddresses order m b.unread b.readScript).result with
  | error e =>
    have hfirst : (b.step (.readAddresses order m)).1.result = .error e :=
      congrArg (Except.map Value.addresses) h
    rw [inTurn_of_error hfirst, hall, Transfer.andThen_of_error h, ← h]
    rfl
  | ok as =>
    have hfirst : (b.step (.readAddresses order m)).1.result = .ok (.addresses as) :=
      congrArg (Except.map Value.addresses) h
    have hsecond : (b.step (.readAddresses order m)).2.step (.readAddresses order n) =
        (b.read (readAddresses order m b.unread b.readScript)).answerRead .addresses
          (readAddresses order n (b.unread.drop (4 * m))
            (readAddresses order m b.unread b.readScript).script) := by
      rw [← length_moved_readAddresses_of_ok h]
      rfl
    rw [inTurn_of_ok hfirst, hsecond, hall, answerRead, read_andThen_of_ok b h,
      Transfer.andThen_of_ok h]
    simp only [Transfer.result_map, map_addresses_append]
    rfl

/-- One representable address is written as its reference, and any other is refused, under
index zero, in front of the first call. -/
theorem step_writeAddresses_singleton (b : Buffer) (order : ByteOrder) (a : Address) :
    match a.encode with
    | .error e =>
      b.step (.writeAddresses order [a]) =
        (⟨.error (.outOfRange 0 e), [], b.contents.length, b.position⟩, b) ∧
      (writeAddresses order [a] b.writeScript).calls = 0
    | .ok r => b.step (.writeAddresses order [a]) = b.step (.writeRef order r) := by
  by_cases ha : a.Representable
  · rw [Address.encode_of_representable ha]
    simp only [step, writeAddresses_singleton_of_representable order ha]
  · have hfail : writeAddresses order [a] b.writeScript =
        .fail (.outOfRange 0 ⟨a⟩) b.writeScript :=
      writeAddressesFrom_cons_of_not_representable order 0 ha [] b.writeScript
    have hkept : ∀ err : WireError,
        b.written (.fail err b.writeScript : Transfer WireError Unit) = b := by
      intro err
      rw [written, Transfer.moved_fail, List.append_nil]
      rfl
    rw [Address.encode_of_not_representable ha]
    refine ⟨?_, congrArg Transfer.calls hfail⟩
    rw [step, hfail, answerWritten, hkept]
    rfl

/-- **Tables may be cut at any place, whatever the channels do.**  Writing a table is writing
its front and, if that succeeded, its end: with the same result, but for the index of a
refused address, the same bytes and the same calls left.  The smallest table is one
reference, or a refusal without a call.  Reading a table is reading its front and, if that
succeeded, its end: the addresses are put together, and an error of either part stands. -/
theorem step_concatenates (b : Buffer) (order : ByteOrder) :
    (∀ xs ys, b.step (.writeAddresses order (xs ++ ys)) =
      b.inTurn (.writeAddresses order xs) (.writeAddresses order ys)
        fun _ => Except.mapError (WireError.shift xs.length)) ∧
    (∀ a : Address, match a.encode with
      | .error e =>
        b.step (.writeAddresses order [a]) =
          (⟨.error (.outOfRange 0 e), [], b.contents.length, b.position⟩, b) ∧
        (writeAddresses order [a] b.writeScript).calls = 0
      | .ok r => b.step (.writeAddresses order [a]) = b.step (.writeRef order r)) ∧
    ∀ m n, b.step (.readAddresses order (m + n)) =
      b.inTurn (.readAddresses order m) (.readAddresses order n)
        fun value => Except.map value.append :=
  ⟨b.step_writeAddresses_append order, b.step_writeAddresses_singleton order,
    b.step_readAddresses_add order⟩

end Buffer

end Wire

end CompressedRefs
