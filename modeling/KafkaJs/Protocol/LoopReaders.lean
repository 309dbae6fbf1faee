import KafkaJs.Data.Traversal
import KafkaJs.Protocol.PrimitiveReaders

/-!
# Reads with a loop

The readers of fetch responses await the decoding of records, which has loops that need not end. As
there, `none` stands for a loop that still goes on. `ComesTo` says what a read comes to on the bytes
of something, a value or an error, wherever they stand. Reads are put together by `ComesTo.bind`,
and `comesTo_readArrayAsync` is the rule for arrays.
-/

namespace KafkaJs.Protocol

open KafkaJs.Data

/-- A read in which a loop may go on. -/
abbrev LoopReader (α : Type) := StateT Decoder (ExceptT KafkaError Option) α

/-- A read without a loop. -/
def once {α : Type} (reader : Reader α) : LoopReader α := fun decoder => some (reader decoder)

/-- `reader(this)`, `length` times, each awaited. -/
def readManyAsync {α : Type} (reader : LoopReader α) : Nat → LoopReader (List α)
  | 0 => pure []
  | length + 1 => do
      let value ← reader
      let values ← readManyAsync reader length
      pure (value :: values)

/-- `readArrayAsync`. -/
def readArrayAsync {α : Type} (reader : LoopReader α) : LoopReader (List α) := do
  let length ← once Decoder.readInt32
  if length = -1 then pure []
  else if length < 0 then throw outOfRange
  else readManyAsync reader length.toNat

/-- The reader comes to `result` on `bytes` in every context. It stops behind them if it returns. -/
def ComesTo {α : Type} (reader : LoopReader α) (bytes : Bytes) (result : Except KafkaError α) :
    Prop :=
  ∀ before after : Bytes,
    reader ⟨before ++ (bytes ++ after), before.length⟩ =
      some (result.map fun value =>
        (value, ⟨before ++ (bytes ++ after), (before.length : Int) + bytes.length⟩))

section ComesTo

variable {α β : Type} {reader : LoopReader α} {head tail : Bytes} {first : Except KafkaError α}

/-- Returning a value reads nothing and comes to it. -/
theorem comesTo_pure (value : α) : ComesTo (Pure.pure value) [] (.ok value) := by
  intro before after
  show some (Except.ok (value, _)) = some (Except.ok (value, _))
  simp

/-- A reader that reads its value comes to it in one round. -/
theorem Reads.once {reader : Reader α} {value : α} (h : Reads reader head value) :
    ComesTo (Protocol.once reader) head (.ok value) :=
  fun before after => congrArg some (h before after)

/-- Two reads, one after the other. The second one does not take place if the first one throws. -/
theorem ComesTo.bind {next : α → LoopReader β} {rest : α → Except KafkaError β}
    (hfirst : ComesTo reader head first)
    (hnext : ∀ value, first = .ok value → ComesTo (next value) tail (rest value)) :
    ComesTo (reader >>= next) (head ++ tail) (first >>= rest) := by
  intro before after
  have hread := hfirst before (tail ++ after)
  rw [List.append_assoc]
  show (reader _ >>= fun pair => next pair.1 pair.2 : ExceptT KafkaError Option _) = _
  cases hresult : first with
  | error error =>
      rw [hresult] at hread
      rw [show reader _ = some (Except.error error) from hread]
      rfl
  | ok value =>
      rw [hresult] at hread
      rw [show reader _ = some (Except.ok (value, _)) from hread]
      have hsecond := hnext value hresult (before ++ head) after
      simp only [List.append_assoc, List.length_append, Nat.cast_add] at hsecond
      show next value _ = _
      rw [hsecond, ok_bind, List.length_append, Nat.cast_add, Int.add_assoc]

/-- A read before one that comes to a result in any case. -/
theorem ComesTo.bind_ok {next : α → LoopReader β} {value : α} {result : Except KafkaError β}
    (hfirst : ComesTo reader head (.ok value)) (hnext : ComesTo (next value) tail result) :
    ComesTo (reader >>= next) (head ++ tail) result :=
  @ComesTo.bind _ _ reader head tail (.ok value) next (fun _ => result) hfirst
    fun other hother => by
      cases hother
      exact hnext

/-- What a reader comes to may be mapped. -/
theorem ComesTo.map {f : α → β} (h : ComesTo reader head first) :
    ComesTo (f <$> reader) head (f <$> first) := by
  have hbind := @ComesTo.bind _ _ reader head [] first (fun value => Pure.pure (f value))
    (fun value => .ok (f value)) h fun value _ => comesTo_pure (f value)
  rw [List.append_nil] at hbind
  cases first <;> exact hbind

variable {ι : Type} {items : List ι} {bytesOf : ι → Bytes} {outcome : ι → Except KafkaError α}

/-- Reading a count of items comes to the first error, or to all the items. -/
theorem comesTo_readManyAsync (h : ∀ item ∈ items, ComesTo reader (bytesOf item) (outcome item)) :
    ComesTo (readManyAsync reader items.length) (items.flatMap bytesOf) (items.mapM outcome) := by
  induction items with
  | nil => exact comesTo_pure []
  | cons item items ih =>
      rw [List.flatMap_cons, List.mapM_cons]
      refine (h item List.mem_cons_self).bind fun value _ => ?_
      have hrest := ih fun other hother => h other (List.mem_cons_of_mem item hother)
      exact hrest.map

/-- An array is read element by element, up to the first one that throws. -/
theorem comesTo_readArrayAsync (hlength : items.length < 2 ^ 31)
    (h : ∀ item ∈ items, ComesTo reader (bytesOf item) (outcome item)) :
    ComesTo (readArrayAsync reader) (intBytes 4 items.length ++ items.flatMap bytesOf)
      (items.mapM outcome) := by
  refine (@reads_readInt 4 items.length (by omega) (by omega)).once.bind_ok ?_
  rw [if_neg (by omega), if_neg (by omega), Int.toNat_natCast]
  exact comesTo_readManyAsync h

end ComesTo

end KafkaJs.Protocol
