import Scshr.Lib.Unicode
import Scshr.Protocol.OfferBuild

/-! The walks of `protocol/offers.cpp` on well-formed protobuf messages: every field that
was written is read back and left behind. -/
namespace Scshr.Protocol.Offers

open Common Lib

section Varints

variable {low val shift v : Nat}

theorem payload_bits (more : Bool) (small : low < 128) :
    (UInt8.ofNat (low + more.toNat * 128) &&& 0x7F).toNat = low := by
  have all : ∀ more : Bool, ∀ low : Fin 128,
      (UInt8.ofNat (low.val + more.toNat * 128) &&& 0x7F).toNat = low.val := by decide
  exact all more ⟨low, small⟩

theorem continuation_bit (more : Bool) (small : low < 128) :
    UInt8.ofNat (low + more.toNat * 128) &&& 0x80 = 0 ↔ more = false := by
  have all : ∀ more : Bool, ∀ low : Fin 128,
      UInt8.ofNat (low.val + more.toNat * 128) &&& 0x80 = 0 ↔ more = false := by decide
  exact all more ⟨low, small⟩

theorem or_bits (below : val < 2 ^ shift) (fits : low * 2 ^ shift < 2 ^ 64) :
    val ||| sizeT (low <<< shift) = val + low * 2 ^ shift := by
  rw [Nat.shiftLeft_eq, sizeT, Nat.mod_eq_of_lt fits, Nat.or_comm,
    Unicode.or_eq_add low below, Nat.add_comm]

theorem varintLoop_cons (more : Bool) (rest : Bytes) (small : low < 128) (early : shift ≤ 63)
    (below : val < 2 ^ shift) (fits : low * 2 ^ shift < 2 ^ 64) :
    varintLoop (UInt8.ofNat (low + more.toNat * 128) :: rest) shift val =
      if more then
        if 70 < shift + 7 then none
        else (varintLoop rest (shift + 7) (val + low * 2 ^ shift)).map
          fun (val, taken) => (val, taken + 1)
      else some (val + low * 2 ^ shift, 1) := by
  have bit := continuation_bit more small
  rw [varintLoop, if_pos (Nat.lt_of_le_of_lt early (by decide)), payload_bits more small,
    or_bits below fits]
  cases more with
  | false => rw [if_pos (bit.mpr rfl)]; rfl
  | true => rw [if_neg fun zero => absurd (bit.mp zero) (by decide)]; rfl

theorem varintLoop_varintBytes (more : Nat) (rest : Bytes) (round : shift + 7 * more = 63)
    (below : val < 2 ^ shift) (fits : v * 2 ^ shift < 2 ^ 64) :
    varintLoop (varintBytes more v ++ rest) shift val =
      some (val + v * 2 ^ shift, (varintBytes more v).length) := by
  induction more generalizing v shift val with
  | zero =>
    obtain rfl : shift = 63 := by omega
    have last : v % 128 = v := Nat.mod_eq_of_lt (by omega)
    have step := varintLoop_cons false rest (show v < 128 by omega) (by decide) below fits
    rw [varintBytes, last]
    exact step
  | succ more ih =>
    rw [varintBytes]
    split
    next many =>
      have positive : 0 < 2 ^ shift := Nat.two_pow_pos shift
      have power : 2 ^ (shift + 7) = 2 ^ shift * 128 := Nat.pow_add 2 shift 7
      have digits : v % 128 * 2 ^ shift + v / 128 * (2 ^ shift * 128) = v * 2 ^ shift := by
        calc v % 128 * 2 ^ shift + v / 128 * (2 ^ shift * 128)
            = (v % 128 + 128 * (v / 128)) * 2 ^ shift := by ring
          _ = v * 2 ^ shift := by rw [Nat.mod_add_div]
      have low : v % 128 * 2 ^ shift ≤ 127 * 2 ^ shift :=
        Nat.mul_le_mul_right _ (Nat.le_of_lt_succ (Nat.mod_lt v (by decide)))
      have step := varintLoop_cons true (varintBytes more (v / 128) ++ rest)
        (Nat.mod_lt v (show 0 < 128 by decide)) (by omega) below (by omega)
      rw [if_pos rfl, if_neg (by omega),
        ih (by omega) (by rw [power]; omega) (by rw [power]; omega), power] at step
      rw [List.cons_append]
      refine step.trans ?_
      rw [Nat.add_assoc, digits]
      rfl
    next single =>
      have last : v % 128 = v := Nat.mod_eq_of_lt (by omega)
      have step := varintLoop_cons false rest (show v < 128 by omega) (by omega) below fits
      rw [last]
      exact step

variable {d : Bytes} {pos : Nat}

theorem readVarint_placed (fits : v < 2 ^ 64) (placed : Placed d pos (varint v)) :
    readVarint d pos = some (v, pos + (varint v).length) := by
  have read := varintLoop_varintBytes 9 (d.drop (pos + (varint v).length))
    (show 0 + 7 * 9 = 63 from rfl) (show 0 < 2 ^ 0 by decide)
    (show v * 2 ^ 0 < 2 ^ 64 by rw [pow_zero, Nat.mul_one]; exact fits)
  rw [pow_zero, Nat.mul_one, Nat.zero_add] at read
  unfold readVarint
  rw [placed.drop_eq]
  show Option.map _ (varintLoop (varintBytes 9 v ++ _) 0 0) = _
  rw [read]
  rfl

theorem varintBytes_length (more v : Nat) :
    0 < (varintBytes more v).length ∧ (varintBytes more v).length ≤ more + 1 := by
  induction more generalizing v with
  | zero => exact ⟨Nat.one_pos, Nat.le_refl 1⟩
  | succ more ih =>
    rw [varintBytes]
    split
    · have := (ih (v / 128)).2
      rw [List.length_cons]
      omega
    · rw [List.length_singleton]
      omega

theorem varint_length (v : Nat) : 0 < (varint v).length ∧ (varint v).length ≤ 10 :=
  varintBytes_length 9 v

end Varints

inductive Wire where
  | varint (value : UInt64)
  | bytes (body : Bytes)
  | fixed64 (raw : Vector UInt8 8)
  | fixed32 (raw : Vector UInt8 4)

structure ProtoField where
  number : Nat
  number_lt : number < 2 ^ 29
  payload : Wire

namespace ProtoField

def encode (field : ProtoField) : Bytes :=
  match field.payload with
  | .varint value => fieldVarint field.number value.toNat
  | .bytes body => fieldBytes field.number body
  | .fixed64 raw => Offers.varint (field.number * 8 + 1) ++ raw.toList
  | .fixed32 raw => Offers.varint (field.number * 8 + 5) ++ raw.toList

def readAt (field : ProtoField) (pos : Nat) : Field where
  number := field.number
  payload :=
    match field.payload with
    | .varint value => .varint value.toNat
    | .bytes body => .bytes (pos + (field.encode.length - body.length)) body.length
    | .fixed64 _ => .fixed
    | .fixed32 _ => .fixed
  next := pos + field.encode.length

variable {d : Bytes} {pos : Nat}

theorem readField_tag {number wire : Nat} (number_lt : number < 2 ^ 29) (wire_lt : wire < 8)
    (placed : Placed d pos (Offers.varint (number * 8 + wire))) :
    readField d pos =
      readPayload d number wire (pos + (Offers.varint (number * 8 + wire)).length) := by
  have tag := readVarint_placed (show number * 8 + wire < 2 ^ 64 by omega) placed
  have kind : (number * 8 + wire) % 8 = wire := by omega
  have narrow : fieldNumber (number * 8 + wire) = number := by
    unfold fieldNumber
    omega
  rw [readField, tag, Option.bind_eq_bind, Option.bind_some]
  dsimp only
  rw [kind, narrow]

theorem readField_encode (short : d.length < 2 ^ 63) (field : ProtoField)
    (placed : Placed d pos field.encode) : readField d pos = some (field.readAt pos) := by
  have inside := placed.inside
  have wrap : ∀ stop, stop ≤ d.length → sizeT stop = stop := by
    intro stop below
    exact Nat.mod_eq_of_lt (by omega)
  obtain ⟨number, number_lt, payload⟩ := field
  cases payload with
  | varint value =>
    have written : Placed d pos (Offers.varint (number * 8 + 0) ++ Offers.varint value.toNat) :=
      placed
    have read := readVarint_placed value.toNat_lt written.right
    rw [readField_tag number_lt (by decide) written.left, readPayload, read, Nat.add_assoc,
      ← List.length_append]
    rfl
  | bytes body =>
    have written : Placed d pos (Offers.varint (number * 8 + 2) ++
      (Offers.varint body.length ++ body)) := placed
    have fits := written.right.right.inside
    have read := readVarint_placed (show body.length < 2 ^ 64 by omega) written.right.left
    have start : (fieldBytes number body).length - body.length =
        (Offers.varint (number * 8 + 2)).length + (Offers.varint body.length).length := by
      unfold fieldBytes
      rw [List.length_append, List.length_append]
      omega
    rw [readField_tag number_lt (by decide) written.left, readPayload, read]
    dsimp only [bind, Option.bind]
    rw [wrap _ fits, if_neg (Nat.not_lt.mpr fits)]
    unfold readAt encode
    dsimp only
    rw [start, ← Nat.add_assoc]
    unfold fieldBytes
    rw [List.length_append, List.length_append, ← Nat.add_assoc, ← Nat.add_assoc]
  | fixed64 raw =>
    have written : Placed d pos (Offers.varint (number * 8 + 1) ++ raw.toList) := placed
    have fits := written.right.inside
    rw [Vector.length_toList] at fits
    rw [readField_tag number_lt (by decide) written.left, readPayload, wrap _ fits]
    unfold readAt encode
    dsimp only
    rw [List.length_append, Vector.length_toList, ← Nat.add_assoc]
  | fixed32 raw =>
    have written : Placed d pos (Offers.varint (number * 8 + 5) ++ raw.toList) := placed
    have fits := written.right.inside
    rw [Vector.length_toList] at fits
    rw [readField_tag number_lt (by decide) written.left, readPayload, wrap _ fits]
    unfold readAt encode
    dsimp only
    rw [List.length_append, Vector.length_toList, ← Nat.add_assoc]

theorem encode_length (field : ProtoField) : 0 < field.encode.length := by
  unfold encode fieldVarint fieldBytes
  split <;> rw [List.length_append] <;> exact Nat.add_pos_left (varint_length _).1 _

theorem visit_skip (short : d.length < 2 ^ 63) (field : ProtoField)
    (placed : Placed d pos field.encode)
    (other : ∀ body, field.payload = .bytes body → target ≠ some field.number) :
    visit d target pos = .skip (field.readAt pos) := by
  have inside := placed.inside
  have filled := field.encode_length
  unfold visit
  rw [if_neg (by omega), readField_encode short field placed]
  cases kind : field.payload with
  | bytes body =>
    have passed := other body kind
    unfold readAt
    rw [kind]
    dsimp only
    rw [if_neg passed]
  | _ =>
    unfold readAt
    rw [kind]

theorem body_placed {field : ProtoField} {body : Bytes} (kind : field.payload = .bytes body)
    (placed : Placed d pos field.encode) :
    Placed d (pos + (field.encode.length - body.length)) body := by
  have layout : field.encode =
      (Offers.varint (field.number * 8 + 2) ++ Offers.varint body.length) ++ body := by
    unfold encode
    rw [kind, List.append_assoc]
    rfl
  rw [layout] at placed
  rw [layout, List.length_append, Nat.add_sub_cancel]
  exact placed.right

theorem visit_enter (short : d.length < 2 ^ 63) (field : ProtoField) {body : Bytes}
    (kind : field.payload = .bytes body) (placed : Placed d pos field.encode) :
    visit d (some field.number) pos = .enter (field.readAt pos) body := by
  have inside := placed.inside
  have filled := field.encode_length
  have message := body_placed kind placed
  have within := message.inside
  have payload : (field.readAt pos).payload =
      .bytes (pos + (field.encode.length - body.length)) body.length := by
    unfold readAt
    rw [kind]
  unfold visit
  rw [if_neg (by omega), readField_encode short field placed]
  dsimp only
  rw [payload]
  dsimp only
  rw [if_pos (show some field.number = some (field.readAt pos).number from rfl), subspan,
    if_neg (by omega), if_pos within, message.take_eq]

end ProtoField

end Scshr.Protocol.Offers
