import Wotex.Term.Outcome

/-!
# Commands (`error.ex`, `address.ex`, `command.ex`)

A command is a function code, an address range and the values to write. `new/4` builds one from an operation
and its input, and `validate/1` builds it anew and compares, so that a forged struct is refused at the wire
boundary. Numbers are natural here: `Address.new/3` and `normalize/2` refuse negative ones, as they refuse
every other term (`Item.other`).

* `validate_iff`: what a valid command looks like, function by function.
-/

namespace Wotex.Modbus

/-! ## Failures -/

/-- The codes of the modelled functions. -/
inductive Code where
  | unsupportedOperation | invalidCommand | invalidAddress | invalidQuantity | addressOverflow
  | invalidUnit | invalidValue | invalidMbap | responseMismatch | remoteException | invalidResponse
  | invalidPadding
  deriving DecidableEq

/-- `field`. -/
inductive Field where
  | operation | offset | quantity | unitId | values
  deriving DecidableEq

/-- `Wotex.Modbus.Error`; the details of a remote exception are its code and the function. -/
structure Error where
  code : Code
  field : Option Field
  details : Option (Nat × Nat)
  deriving DecidableEq

/-- What a function of the package returns. -/
abbrev Result (α : Type) := Outcome Error α

/-- `{:error, Error.new(code, field)}`. -/
def failure {α : Type} (code : Code) (field : Option Field := none) : Result α :=
  .refuse ⟨code, field, none⟩

@[simp] theorem failure_eq_ok {α : Type} {code : Code} {field : Option Field} {a : α} :
    failure code field = .ok a ↔ False := by
  simp [failure]

theorem ite_failure_eq_ok {α : Type} {p : Prop} [Decidable p] {x : Result α} {code : Code}
    {field : Option Field} {a : α} :
    (if p then x else failure code field) = .ok a ↔ p ∧ x = .ok a := by
  by_cases h : p <;> simp [h]

/-! ## Addresses -/

structure Address where
  offset : Nat
  quantity : Nat
  unitId : Nat
  deriving DecidableEq

/-- `address.ex:31-48`. -/
def Address.new (offset quantity unitId : Nat) : Result Address :=
  if 65535 < offset then failure .invalidAddress (some .offset)
  else if quantity < 1 ∨ 2000 < quantity then failure .invalidQuantity (some .quantity)
  else if 65536 < offset + quantity then failure .addressOverflow (some .quantity)
  else if ¬ (1 ≤ unitId ∧ unitId ≤ 247) ∧ unitId ≠ 255 then failure .invalidUnit (some .unitId)
  else .ok ⟨offset, quantity, unitId⟩

/-- What `Address.new/3` admits. -/
structure Address.Admitted (a : Address) : Prop where
  offset : a.offset ≤ 65535
  quantity : 1 ≤ a.quantity ∧ a.quantity ≤ 2000
  range : a.offset + a.quantity ≤ 65536
  unitId : (1 ≤ a.unitId ∧ a.unitId ≤ 247) ∨ a.unitId = 255

theorem Address.new_eq_ok {offset quantity unitId : Nat} {a : Address} :
    Address.new offset quantity unitId = .ok a ↔ a = ⟨offset, quantity, unitId⟩ ∧ a.Admitted := by
  constructor
  · intro h
    unfold Address.new at h
    split_ifs at h with h1 h2 h3 h4 <;> try exact (failure_eq_ok.mp h).elim
    cases h
    exact ⟨rfl, by dsimp only; omega, by dsimp only; omega, by dsimp only; omega,
      by dsimp only; omega⟩
  · rintro ⟨rfl, h⟩
    have h1 := h.offset
    have h2 := h.quantity
    have h3 := h.range
    have h4 := h.unitId
    dsimp only at h1 h2 h3 h4
    rw [Address.new, if_neg (by omega), if_neg (by omega), if_neg (by omega), if_neg (by omega)]

/-! ## Commands -/

/-- A value of a command or of an input. -/
inductive Item where
  | int (n : Nat) | bool (b : Bool) | other
  deriving DecidableEq

structure Command where
  function : Nat
  address : Address
  values : List Item
  deriving DecidableEq

namespace Command

/-- The keys of `@reads` and `@writes`. -/
inductive Operation where
  | readCoils | readDiscreteInputs | readHoldingRegisters | readInputRegisters
  | writeCoil | writeHoldingRegister | writeCoils | writeHoldingRegisters

/-- The values of `@reads` and `@writes`. -/
def Operation.code : Operation → Nat
  | readCoils => 1
  | readDiscreteInputs => 2
  | readHoldingRegisters => 3
  | readInputRegisters => 4
  | writeCoil => 5
  | writeHoldingRegister => 6
  | writeCoils => 15
  | writeHoldingRegisters => 16

/-- The operation of a function code, `nil` without one. -/
def Operation.ofCode : Nat → Option Operation
  | 1 => some readCoils
  | 2 => some readDiscreteInputs
  | 3 => some readHoldingRegisters
  | 4 => some readInputRegisters
  | 5 => some writeCoil
  | 6 => some writeHoldingRegister
  | 15 => some writeCoils
  | 16 => some writeHoldingRegisters
  | _ => none

/-- The input of `new/4`: a quantity or one value, or a list of values. -/
inductive Input where
  | item (v : Item) | items (l : List Item)

section

variable (function offset : Nat) (input : Input) (unit : Nat)

/-- `command.ex:73-80`. -/
def read : Result Command :=
  match input with
  | .item (.int quantity) => do
    let address ← Address.new offset quantity unit
    if quantity ≤ (if function = 1 ∨ function = 2 then 2000 else 125) then
      .ok ⟨function, address, []⟩
    else failure .invalidQuantity (some .quantity)
  | _ =>
    -- the offset is checked before the quantity
    if 65535 < offset then failure .invalidAddress (some .offset)
    else failure .invalidQuantity (some .quantity)

def valuesShape (values : List Item) (maximum : Nat) : Result Unit :=
  if values = [] ∨ maximum < values.length then failure .invalidQuantity (some .values) else .ok ()

/-- `&1 in [true, false, 0, 1]`. -/
def coil : Item → Bool
  | .bool _ | .int 0 | .int 1 => true
  | _ => false

/-- `&1 in [true, 1]`. -/
def on : Item → Bool
  | .bool b => b
  | .int n => n = 1
  | .other => false

/-- `is_integer(&1) and &1 in 0..65_535`. -/
def register : Item → Bool
  | .int n => n ≤ 65535
  | _ => false

/-- `command.ex:105-115`. -/
def normalize (values : List Item) (function : Nat) : Result (List Item) :=
  if function = 5 ∨ function = 15 then
    if values.all coil then .ok (values.map fun v => .bool (on v))
    else failure .invalidValue (some .values)
  else if values.all register then .ok values
  else failure .invalidValue (some .values)

/-- A list of values is no value. -/
def Input.single : Input → Item
  | .item v => v
  | .items _ => .other

/-- The values of a write, `none` where they are not a list. -/
def written (function : Nat) (input : Input) : Option (List Item) :=
  if function = 5 ∨ function = 6 then some [input.single]
  else
    match input with
    | .items l => some l
    | .item _ => none

/-- The checks of `write/4` on a list of values. -/
def writeValues (function offset : Nat) (values : List Item) (unit : Nat) : Result Command := do
  valuesShape values (if function = 15 then 1968 else 123)
  let address ← Address.new offset values.length unit
  let values ← normalize values function
  .ok ⟨function, address, values⟩

/-- `command.ex:70-71`, `command.ex:82-91`. -/
def write : Result Command :=
  match written function input with
  | some values => writeValues function offset values unit
  | none => failure .invalidValue (some .values)

end

/-- `command.ex:38-44`. -/
def new (operation : Option Operation) (offset : Nat) (input : Input) (unitId : Nat) :
    Result Command :=
  match operation with
  | some op =>
    if op.code ≤ 4 then read op.code offset input unitId else write op.code offset input unitId
  | none => failure .unsupportedOperation (some .operation)

/-- The input `validate/1` rebuilds a command from. -/
def input (c : Command) : Input :=
  match c.function, c.values with
  | 1, [] | 2, [] | 3, [] | 4, [] => .item (.int c.address.quantity)
  | 5, [v] | 6, [v] => .item v
  | 15, vs | 16, vs => .items vs
  | _, _ => .item .other

def validate (c : Command) : Result Unit :=
  match new (Operation.ofCode c.function) c.address.offset c.input c.address.unitId with
  | .ok rebuilt => if rebuilt = c then .ok () else failure .invalidCommand
  | _ => failure .invalidCommand

/-! ## Valid commands -/

/-- The values of a command that writes coils. -/
def coils (l : List Bool) : List Item := l.map .bool

/-- The values of a command that writes registers. -/
def registers (l : List UInt16) : List Item := l.map fun v => .int v.toNat

/-- A valid command, by its function. -/
inductive Valid : Command → Prop where
  | readBits {f : Nat} {a : Address} (hf : f = 1 ∨ f = 2) (ha : a.Admitted) : Valid ⟨f, a, []⟩
  | readRegisters {f : Nat} {a : Address} (hf : f = 3 ∨ f = 4) (ha : a.Admitted)
      (hq : a.quantity ≤ 125) : Valid ⟨f, a, []⟩
  | writeCoil {a : Address} {v : Bool} (ha : a.Admitted) (hq : a.quantity = 1) :
      Valid ⟨5, a, coils [v]⟩
  | writeRegister {a : Address} {v : UInt16} (ha : a.Admitted) (hq : a.quantity = 1) :
      Valid ⟨6, a, registers [v]⟩
  | writeCoils {a : Address} {l : List Bool} (ha : a.Admitted) (hl : l.length = a.quantity)
      (hq : a.quantity ≤ 1968) : Valid ⟨15, a, coils l⟩
  | writeRegisters {a : Address} {l : List UInt16} (ha : a.Admitted) (hl : l.length = a.quantity)
      (hq : a.quantity ≤ 123) : Valid ⟨16, a, registers l⟩

variable {f offset unit : Nat} {c : Command} {values : List Item}

theorem read_eq_ok {input : Input} :
    read f offset input unit = .ok c ↔ ∃ quantity, input = .item (.int quantity) ∧
      c = ⟨f, ⟨offset, quantity, unit⟩, []⟩ ∧ c.address.Admitted ∧
      quantity ≤ if f = 1 ∨ f = 2 then 2000 else 125 := by
  constructor
  · intro h
    unfold read at h
    split at h
    · rename_i quantity
      simp only [bind_eq_ok, Address.new_eq_ok, ite_failure_eq_ok] at h
      obtain ⟨a, ⟨rfl, ha⟩, hq, h⟩ := h
      cases h
      exact ⟨quantity, rfl, rfl, ha, hq⟩
    · split_ifs at h <;> exact (failure_eq_ok.mp h).elim
  · rintro ⟨quantity, rfl, rfl, ha, hq⟩
    simp [read, Address.new_eq_ok.mpr ⟨rfl, ha⟩, if_pos hq]

theorem normalize_coils {vs : List Item} (hf : f = 5 ∨ f = 15) :
    normalize values f = .ok vs → ∃ l : List Bool, l.length = values.length ∧ vs = coils l := by
  intro h
  rw [normalize, if_pos hf, ite_failure_eq_ok] at h
  cases h.2
  exact ⟨values.map on, by simp, by simp [coils]⟩

theorem normalize_of_coils (l : List Bool) (hf : f = 5 ∨ f = 15) :
    normalize (coils l) f = .ok (coils l) := by
  rw [normalize, if_pos hf, if_pos (by simp [coils, coil])]
  simp [coils, on]

theorem normalize_registers {vs : List Item} (hf : ¬ (f = 5 ∨ f = 15)) :
    normalize values f = .ok vs ↔ vs = values ∧ ∃ l : List UInt16, values = registers l := by
  have hexists : ∀ l : List Item, l.all register = true → ∃ m : List UInt16, l = registers m := by
    intro l
    induction l with
    | nil => exact fun _ => ⟨[], rfl⟩
    | cons v rest ih =>
      intro hall
      rw [List.all_cons, Bool.and_eq_true] at hall
      obtain ⟨m, rfl⟩ := ih hall.2
      cases v with
      | int n =>
        have hn : n ≤ 65535 := by simpa [register] using hall.1
        have hto : (UInt16.ofNat n).toNat = n := UInt16.toNat_ofNat_of_lt' (by
          rw [UInt16.size]
          omega)
        exact ⟨UInt16.ofNat n :: m, by simp [registers, hto]⟩
      | bool b => cases hall.1
      | other => cases hall.1
  rw [normalize, if_neg hf, ite_failure_eq_ok]
  constructor
  · rintro ⟨hall, h⟩
    exact ⟨(Outcome.ok.inj h).symm, hexists values hall⟩
  · rintro ⟨rfl, l, rfl⟩
    refine ⟨?_, rfl⟩
    simp only [registers, List.all_map, List.all_eq_true, Function.comp, register,
      decide_eq_true_eq]
    intro v _
    have := v.toNat_lt
    omega

theorem valuesShape_eq_ok {maximum : Nat} :
    valuesShape values maximum = .ok () ↔ 1 ≤ values.length ∧ values.length ≤ maximum := by
  cases values <;> simp [valuesShape]

theorem writeValues_eq_ok : writeValues f offset values unit = .ok c ↔
      1 ≤ values.length ∧ values.length ≤ (if f = 15 then 1968 else 123) ∧
        c.function = f ∧ c.address = ⟨offset, values.length, unit⟩ ∧ c.address.Admitted ∧
        normalize values f = .ok c.values := by
  obtain ⟨cf, ca, cv⟩ := c
  simp only [writeValues, bind_eq_ok, exists_unit, Address.new_eq_ok, valuesShape_eq_ok]
  constructor
  · rintro ⟨⟨hpos, hle⟩, a, ⟨rfl, ha⟩, vs, hvs, h⟩
    cases h
    exact ⟨hpos, hle, rfl, rfl, ha, hvs⟩
  · rintro ⟨hpos, hle, rfl, rfl, ha, hvs⟩
    exact ⟨⟨hpos, hle⟩, _, ⟨rfl, ha⟩, cv, hvs, rfl⟩

theorem writeValues_ok {a : Address} (hn : normalize values f = .ok values) (ha : a.Admitted)
    (hlen : values.length = a.quantity) (hq : a.quantity ≤ if f = 15 then 1968 else 123) :
    writeValues f a.offset values a.unitId = .ok ⟨f, a, values⟩ := by
  refine writeValues_eq_ok.mpr ⟨?_, ?_, rfl, ?_, ha, hn⟩
  · rw [hlen]
    exact ha.quantity.1
  · rwa [hlen]
  · rw [hlen]

theorem Operation.code_of_ofCode {op : Operation} (h : ofCode f = some op) : op.code = f := by
  unfold ofCode at h
  split at h <;> cases h <;> rfl

theorem write_eq_ok {input : Input} : write f offset input unit = .ok c ↔
      ∃ values, written f input = some values ∧ writeValues f offset values unit = .ok c := by
  unfold write
  cases written f input with
  | none => simp
  | some values => simp

/-- **The valid commands.** -/
theorem validate_iff : c.validate = .ok () ↔ Valid c := by
  have hrebuilt : c.validate = .ok () ↔
      new (Operation.ofCode c.function) c.address.offset c.input c.address.unitId = .ok c := by
    unfold validate
    split
    · rename_i rebuilt hnew
      rw [hnew]
      by_cases h : rebuilt = c <;> simp
    · rename_i hnot
      exact ⟨nofun, fun h => absurd h (hnot c)⟩
  rw [hrebuilt]
  constructor
  · intro h
    obtain ⟨f, a, vs⟩ := c
    unfold new at h
    split at h
    · rename_i op hop
      obtain rfl := Operation.code_of_ofCode hop
      split_ifs at h with hread
      · obtain ⟨quantity, -, hc, ha, hq⟩ := read_eq_ok.mp h
        obtain ⟨-, haddress, rfl⟩ := Command.mk.inj hc
        obtain rfl : a.quantity = quantity := by rw [haddress]
        by_cases hbits : op.code = 1 ∨ op.code = 2
        · exact .readBits hbits ha
        · refine .readRegisters ?_ ha (by rwa [if_neg hbits] at hq)
          revert hbits hread
          cases op <;> decide
      · obtain ⟨values, hinput, hvalues⟩ := write_eq_ok.mp h
        obtain ⟨-, hle, -, ha, hadmitted, hnorm⟩ := writeValues_eq_ok.mp hvalues
        dsimp only at ha hadmitted hnorm
        have hq : a.quantity = values.length := by rw [ha]
        cases op with
        | writeCoil =>
          cases hinput
          obtain ⟨l, hl, rfl⟩ := normalize_coils (.inl rfl) hnorm
          obtain ⟨v, rfl⟩ := List.length_eq_one_iff.mp hl
          exact .writeCoil hadmitted hq
        | writeHoldingRegister =>
          have hone : values.length = 1 := by rw [← Option.some.inj hinput]; rfl
          obtain ⟨rfl, l, rfl⟩ := (normalize_registers (by decide)).mp hnorm
          rw [registers, List.length_map] at hone
          obtain ⟨v, rfl⟩ := List.length_eq_one_iff.mp hone
          exact .writeRegister hadmitted hq
        | writeCoils =>
          cases hinput
          obtain ⟨l, hl, rfl⟩ := normalize_coils (.inr rfl) hnorm
          have hle : a.quantity ≤ 1968 := hq ▸ hle
          exact .writeCoils hadmitted (hl.trans hq.symm) hle
        | writeHoldingRegisters =>
          cases hinput
          obtain ⟨-, l, rfl⟩ := (normalize_registers (by decide)).mp hnorm
          have hle : a.quantity ≤ 123 := hq ▸ hle
          exact .writeRegisters hadmitted (by simpa [registers] using hq.symm) hle
        | _ => exact absurd (by decide) hread
    · exact (failure_eq_ok.mp h).elim
  · intro h
    cases h with
    | @readBits f a hf ha =>
      have hread : read f a.offset (.item (.int a.quantity)) a.unitId = .ok ⟨f, a, []⟩ :=
        read_eq_ok.mpr ⟨_, rfl, rfl, ha, by rw [if_pos hf]; exact ha.quantity.2⟩
      rcases hf with rfl | rfl <;> exact hread
    | @readRegisters f a hf ha hq =>
      have hread : read f a.offset (.item (.int a.quantity)) a.unitId = .ok ⟨f, a, []⟩ :=
        read_eq_ok.mpr ⟨_, rfl, rfl, ha, by rw [if_neg (by omega)]; exact hq⟩
      rcases hf with rfl | rfl <;> exact hread
    | @writeCoil a v ha hq =>
      exact writeValues_ok (normalize_of_coils [v] (.inl rfl)) ha hq.symm (by rw [hq]; decide)
    | @writeRegister a v ha hq =>
      exact writeValues_ok (f := 6) ((normalize_registers (by decide)).mpr ⟨rfl, [v], rfl⟩) ha hq.symm
        (by rw [hq]; decide)
    | @writeCoils a l ha hl hq =>
      exact writeValues_ok (normalize_of_coils l (.inr rfl)) ha (by simpa [coils] using hl) hq
    | @writeRegisters a l ha hl hq =>
      exact writeValues_ok (f := 16) ((normalize_registers (by decide)).mpr ⟨rfl, l, rfl⟩) ha
        (by simpa [registers] using hl) hq

end Command

end Wotex.Modbus
