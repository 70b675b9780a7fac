import Mathlib.Data.Rat.Defs
import Mathlib.Data.List.Forall2
import Ja3Proxy.ListTotals
import Ja3Proxy.SafeIntegers

/-! Values of ECMAScript as they reach code that has to check them, and the copy of a value that
a port delivers (structured clone). Numbers are rational, so minus zero is zero. Nothing here
depends on the modelled program. -/
namespace ClonedValues

inductive Key where
  | text (name : String)
  | symbol
  deriving DecidableEq, Repr

inductive Prototype where
  | object
  | null
  | other
  deriving DecidableEq, Repr

/-- What an own property has beside its value; reading an accessor calls its getter. -/
structure Attributes where
  key : Key
  enumerable : Bool
  accessor : Bool
  deriving DecidableEq, Repr

/-- A `Uint8Array`, by the bytes it shows and by the place of these in their buffer. -/
structure ByteView where
  content : List UInt8
  byteOffset : ℕ
  bufferLength : ℕ
  shared : Bool
  deriving DecidableEq, Repr

def ByteView.byteLength (v : ByteView) : ℕ := v.content.length

def ByteView.compact (v : ByteView) : Bool :=
  !v.shared && v.byteOffset == 0 && v.byteLength == v.bufferLength

/-- `new Uint8Array(view)` -/
def ByteView.copy (v : ByteView) : ByteView := ⟨v.content, 0, v.content.length, false⟩

/-- `notFinite` is NaN or an infinity, `other` a function, a symbol or any other object. -/
inductive Value where
  | undefined
  | null
  | boolean (b : Bool)
  | number (q : ℚ)
  | notFinite
  | string (s : String)
  | bytes (view : ByteView)
  | array (items : List Value)
  | object (prototype : Prototype) (properties : List (Attributes × Value))
  | headers (entries : List (String × String))
  | url (href : String)
  | other
  deriving Repr

mutual

/-- The copy that the other side of a port reads, or nothing where posting throws. -/
def clone : Value → Option Value
  | .array items => (cloneItems items).map .array
  | .object _ properties => (cloneProperties properties).map (.object .object)
  | .headers _ => none
  | .url _ => none
  | .other => none
  | value => some value

def cloneItems : List Value → Option (List Value)
  | [] => some []
  | value :: rest =>
    (clone value).bind fun copy => (cloneItems rest).map (copy :: ·)

def cloneProperties : List (Attributes × Value) → Option (List (Attributes × Value))
  | [] => some []
  | property :: rest =>
    (cloneProperty property).bind fun copy => (cloneProperties rest).map (copy.toList ++ ·)

def cloneProperty : Attributes × Value → Option (Option (Attributes × Value))
  | (attributes, value) =>
    if attributes.enumerable && attributes.key != .symbol then
      (clone value).map fun copy => some (⟨attributes.key, true, false⟩, copy)
    else some none

end

abbrev Fields := List (String × Value)

def literal (fields : Fields) : Value :=
  .object .object (fields.map fun f => (⟨.text f.1, true, false⟩, f.2))

def present (entries : List (String × Option Value)) : Fields :=
  entries.filterMap fun e => e.2.map (e.1, ·)

def dataField : Attributes × Value → Option (String × Value)
  | (⟨.text name, true, false⟩, value) => some (name, value)
  | _ => none

def fieldsOf : Value → Option Fields
  | .object .object properties => properties.mapM dataField
  | .object .null properties => properties.mapM dataField
  | _ => none

/-- `object.name`, for a name that the root prototype does not have. -/
def Fields.read (fields : Fields) (name : String) : Value :=
  (fields.lookup name).getD .undefined

def codeUnits (s : String) : ℕ :=
  ListTotals.total (fun c => if c.val < 0x10000 then 1 else 2) s.toList

/-- `Number.isSafeInteger` -/
def isSafeInteger (q : ℚ) : Bool :=
  q.den == 1 && SafeIntegers.isSafe q.num

variable {fields : Fields} {entries : List (String × Option Value)} {name : String}

@[simp] theorem fieldsOf_literal (fields : Fields) : fieldsOf (literal fields) = some fields := by
  show (fields.map _).mapM dataField = some fields
  induction fields with
  | nil => rfl
  | cons f rest ih => simp [List.mapM_cons, dataField, ih]

@[simp] theorem read_nil (name : String) : Fields.read [] name = .undefined := rfl

theorem lookup_pair {β : Type} (key : String) (value : β) (rest : List (String × β))
    (name : String) :
    ((key, value) :: rest).lookup name = if name = key then some value else rest.lookup name := by
  by_cases h : name = key
  · simp [h]
  · simp [List.lookup_cons, beq_false_of_ne h, h]

@[simp] theorem read_cons (f : String × Value) (rest : Fields) (name : String) :
    Fields.read (f :: rest) name = if name = f.1 then f.2 else Fields.read rest name := by
  obtain ⟨key, value⟩ := f
  by_cases h : name = key <;> simp [Fields.read, lookup_pair, h]

@[simp] theorem present_nil : present [] = [] := rfl

@[simp] theorem read_present_cons (e : String × Option Value) (rest : List (String × Option Value))
    (name : String) :
    (present (e :: rest)).read name =
      if name = e.1 then e.2.getD ((present rest).read name) else (present rest).read name := by
  obtain ⟨key, _ | value⟩ := e
  · simp [present]
  · by_cases h : name = key <;> simp [present, h]

theorem any_present (entries : List (String × Option Value)) (name : String) :
    (present entries).any (·.1 == name) = entries.any fun e => e.1 == name && e.2.isSome := by
  induction entries with
  | nil => rfl
  | cons e rest ih =>
    obtain ⟨key, _ | value⟩ := e
    · simpa [present] using ih
    · rw [List.any_cons, ← ih]
      simp [present]

theorem filter_present (p : String → Bool) (entries : List (String × Option Value)) :
    (present entries).filter (fun f => p f.1) = present (entries.filter fun e => p e.1) := by
  induction entries with
  | nil => rfl
  | cons e rest ih =>
    obtain ⟨key, _ | value⟩ := e <;> by_cases h : p key <;> simp_all [present]

theorem all_present {p : String → Bool} (h : entries.all fun e => p e.1) :
    (present entries).all (fun f => p f.1) = true := by
  rw [List.all_eq_true] at h ⊢
  intro f hf
  obtain ⟨e, he, hvalue⟩ := List.mem_filterMap.mp hf
  obtain ⟨v, -, rfl⟩ := Option.map_eq_some_iff.mp hvalue
  exact h e he

@[simp] theorem isSafeInteger_cast (n : ℕ) :
    isSafeInteger n = true ↔ n ≤ SafeIntegers.maxSafe := by
  have hden : (n : ℚ).den = 1 := rfl
  have hnum : (n : ℚ).num = (n : ℤ) := rfl
  simp only [isSafeInteger, SafeIntegers.isSafe, Bool.and_eq_true, decide_eq_true_eq, beq_iff_eq,
    hden, hnum, true_and]
  omega

theorem toNat_of_safe {q : ℚ} (hsafe : isSafeInteger q = true) (hq : 0 ≤ q) :
    ((q.num.toNat : ℕ) : ℚ) = q := by
  simp only [isSafeInteger, Bool.and_eq_true, beq_iff_eq] at hsafe
  have hnum : (q.num.toNat : ℤ) = q.num := Int.toNat_of_nonneg (Rat.num_nonneg.mpr hq)
  calc ((q.num.toNat : ℕ) : ℚ) = ((q.num.toNat : ℤ) : ℚ) := rfl
    _ = (q.num : ℚ) := by rw [hnum]
    _ = q := Rat.den_eq_one_iff q |>.mp hsafe.1

def Transferable (v : Value) : Prop := clone v = some v

theorem transferable_array {items : List Value} (h : ∀ v ∈ items, Transferable v) :
    Transferable (.array items) := by
  have hitems : cloneItems items = some items := by
    induction items with
    | nil => rfl
    | cons v rest ih =>
      rw [List.forall_mem_cons] at h
      simp [cloneItems, show clone v = some v from h.1, ih h.2]
  simp [Transferable, clone, hitems]

/-- The copy of an object of plain fields is a literal with the copies of its values. -/
theorem clone_fields (prototype : Prototype) {copies : Fields}
    (h : List.Forall₂ (fun f g => f.1 = g.1 ∧ clone f.2 = some g.2) fields copies) :
    clone (.object prototype (fields.map fun f => (⟨.text f.1, true, false⟩, f.2))) =
      some (literal copies) := by
  have hfields : cloneProperties (fields.map fun f => (⟨.text f.1, true, false⟩, f.2)) =
      some (copies.map fun f => (⟨.text f.1, true, false⟩, f.2)) := by
    induction h with
    | nil => rfl
    | cons hf _ ih => simp [cloneProperties, cloneProperty, hf.1, hf.2, ih]
  simp [literal, clone, hfields]

theorem clone_literal {copies : Fields}
    (h : List.Forall₂ (fun f g => f.1 = g.1 ∧ clone f.2 = some g.2) fields copies) :
    clone (literal fields) = some (literal copies) := clone_fields .object h

theorem transferable_fields (h : ∀ f ∈ fields, Transferable f.2) (prototype : Prototype) :
    clone (.object prototype (fields.map fun f => (⟨.text f.1, true, false⟩, f.2))) =
      some (literal fields) :=
  clone_fields prototype (List.forall₂_same.mpr fun f hf => ⟨rfl, h f hf⟩)

theorem transferable_literal (h : ∀ f ∈ fields, Transferable f.2) :
    Transferable (literal fields) := transferable_fields h .object

theorem transferable_present (h : ∀ e ∈ entries, ∀ v ∈ e.2, Transferable v) :
    Transferable (literal (present entries)) := by
  apply transferable_literal
  intro f hf
  obtain ⟨e, he, hvalue⟩ := List.mem_filterMap.mp hf
  obtain ⟨v, hv, rfl⟩ := Option.map_eq_some_iff.mp hvalue
  exact h e he v hv

end ClonedValues
