/-
# NewsProject.Python — the parts of the language the pipeline leans on

Exceptions with the classes the code tells apart, JSON values with the dynamic operations that are applied to
them (`bool`, `float`, `str`, `.get`, iteration), clocks and calendar days, and the text functions in use.
`CancelledError` is not an `Exception`: `except Exception` lets it through.

Times are integers.  A naive datetime is its wall-clock reading and an aware one carries its offset, both in
microseconds; `ensureUtc` is the function of `shared.common.timeutil`.  A float is its exact value.  What
`float` makes of a text and what `str` prints for a value that is not a text are the two fields of `Builtins`.
-/
import Mathlib.Data.Rat.Defs
import Mathlib.Algebra.Order.Ring.Rat
import Mathlib.Data.List.Dedup
import Mathlib.Data.List.Forall2
import Mathlib.Data.List.Sort
import Mathlib.Data.String.Basic

namespace NewsProject

/-! ## Exceptions -/

/-- The exception classes the pipeline distinguishes; `other` is any further `Exception`. -/
inductive ExcClass where
  | costCeilingExceeded
  | llmError
  | antiCrawlError
  | transient
  | integrityError
  | validationError
  | keyError
  | typeError
  | valueError
  | attributeError
  | assertionError
  | other
  | cancelledError
  deriving DecidableEq, Repr

/-- An exception: its class and its text, `str(e)`. -/
structure PyExc where
  cls : ExcClass
  message : String
  deriving DecidableEq, Repr

/-- What `except Exception` catches. -/
def PyExc.isException (e : PyExc) : Bool := e.cls ≠ .cancelledError

theorem except_bind_ok {α β : Type} {x : Except PyExc α} {f : α → Except PyExc β} {b : β} (h : x >>= f = .ok b) :
    ∃ a, x = .ok a ∧ f a = .ok b := by
  cases x with
  | error e => cases h
  | ok a => exact ⟨a, rfl, h⟩

theorem except_mapM_ok {α β : Type} {f : α → Except PyExc β} {xs : List α} {ys : List β} (h : xs.mapM f = .ok ys) :
    List.Forall₂ (fun x y => f x = .ok y) xs ys := by
  induction xs generalizing ys with
  | nil =>
      cases h
      exact .nil
  | cons x xs ih =>
      rw [List.mapM_cons] at h
      obtain ⟨y, hy, h⟩ := except_bind_ok h
      obtain ⟨rest, hrest, h⟩ := except_bind_ok h
      cases h
      exact .cons hy (ih hrest)

theorem except_mapM_of_forall₂ {α β γ : Type} {R : α → β → Prop} {f : α → Except PyExc γ} {g : β → γ}
    (hf : ∀ x y, R x y → f x = .ok (g y)) {xs : List α} {ys : List β} (h : List.Forall₂ R xs ys) :
    xs.mapM f = .ok (ys.map g) := by
  induction h with
  | nil => rfl
  | cons hxy _ ih =>
      rw [List.mapM_cons, hf _ _ hxy, ih]
      rfl

theorem except_anyM_map {α β : Type} {p : α → Except PyExc Bool} {q : β → Bool} {g : β → α} (h : ∀ b, p (g b) = .ok (q b))
    (bs : List β) : (bs.map g).anyM p = .ok (bs.any q) := by
  induction bs with
  | nil => rfl
  | cons b bs ih =>
      rw [List.map_cons, List.anyM, h, List.any_cons]
      cases q b with
      | true => rfl
      | false => exact ih

theorem except_filterM_map {α β : Type} {p : α → Except PyExc Bool} {q : β → Bool} {g : β → α}
    (h : ∀ b, p (g b) = .ok (q b)) (bs : List β) : (bs.map g).filterM p = .ok ((bs.filter q).map g) := by
  have haux : ∀ acc, List.filterAuxM p (bs.map g) acc = .ok (((bs.filter q).map g).reverse ++ acc) := by
    induction bs with
    | nil => exact fun acc => rfl
    | cons b bs ih =>
        intro acc
        rw [List.map_cons, List.filterAuxM, h]
        change List.filterAuxM p (bs.map g) (cond (q b) (g b :: acc) acc) = _
        rw [ih, List.filter_cons]
        cases q b with
        | true => simp
        | false => rfl
  rw [List.filterM, haux, List.append_nil]
  change Except.ok (((bs.filter q).map g).reverse.reverse) = _
  rw [List.reverse_reverse]

/-- If the computation raises, it raises an `Exception`. -/
def Benign {α : Type} (x : Except PyExc α) : Prop := ∀ e, x = .error e → e.isException = true

theorem Benign.ok {α : Type} (a : α) : Benign (.ok a : Except PyExc α) := by
  rintro e ⟨⟩

theorem Benign.error {α : Type} {e : PyExc} (h : e.isException = true) : Benign (.error e : Except PyExc α) := by
  rintro e' ⟨⟩
  exact h

theorem Benign.bind {α β : Type} {x : Except PyExc α} {f : α → Except PyExc β} (hx : Benign x)
    (hf : ∀ a, Benign (f a)) : Benign (x >>= f) := by
  cases x with
  | ok a => exact hf a
  | error e => exact .error (hx e rfl)

theorem Benign.map {α β : Type} {x : Except PyExc α} (f : α → β) (hx : Benign x) : Benign (x.map f) := by
  cases x with
  | ok a => exact .ok _
  | error e => exact .error (hx e rfl)

theorem Benign.mapM {α β : Type} {f : α → Except PyExc β} (hf : ∀ a, Benign (f a)) (xs : List α) :
    Benign (xs.mapM f) := by
  induction xs with
  | nil => exact .ok _
  | cons a rest ih =>
      rw [List.mapM_cons]
      exact .bind (hf a) (fun b => .bind ih (fun bs => .ok _))

/-! ## Datetimes -/

/-- A datetime: its wall-clock reading and, when it is aware, its offset from UTC, in microseconds. -/
structure PyDateTime where
  wall : Int
  offset : Option Int
  deriving DecidableEq, Repr

/-- `ensure_utc`: a naive datetime is taken to be UTC, an aware one is converted. -/
def ensureUtc (t : PyDateTime) : PyDateTime :=
  match t.offset with
  | none => ⟨t.wall, some 0⟩
  | some o => ⟨t.wall - o, some 0⟩

/-- The point in time a datetime denotes once `ensure_utc` has read it. -/
def PyDateTime.instant (t : PyDateTime) : Int := (ensureUtc t).wall

/-- `t.replace(tzinfo=None)`. -/
def PyDateTime.naive (t : PyDateTime) : PyDateTime := ⟨t.wall, none⟩

/-- `utc_now()` at the instant `now`. -/
def utcNow (now : Int) : PyDateTime := ⟨now, some 0⟩

@[simp] theorem instant_utcNow (now : Int) : (utcNow now).instant = now := by
  simp [PyDateTime.instant, ensureUtc, utcNow]

@[simp] theorem instant_ensureUtc (t : PyDateTime) : (ensureUtc t).instant = t.instant := by
  obtain ⟨w, o⟩ := t
  cases o <;> simp [PyDateTime.instant, ensureUtc]

/-- A UTC datetime stripped of its zone for storage is read back as the same instant. -/
@[simp] theorem instant_naive_ensureUtc (t : PyDateTime) : (ensureUtc t).naive.instant = t.instant := by
  obtain ⟨w, o⟩ := t
  cases o <;> simp [PyDateTime.instant, PyDateTime.naive, ensureUtc]

/-- `utc_now().date()`, as the number of the day. -/
def utcDate (now : Int) : Int := now / 86400000000

/-! ## JSON values -/

/-- A decoded JSON value.  A number is its exact value; `none` stands for `NaN` and the infinities, which
`json.loads` accepts. -/
inductive Json where
  | null
  | bool (b : Bool)
  | num (v : Option ℚ)
  | str (s : String)
  | arr (xs : List Json)
  | obj (kvs : List (String × Json))

/-- The members of a JSON object, in order. -/
abbrev JsonObj := List (String × Json)

/-- The behaviour of `float` on a text and of `str` on a value that is not a text. -/
structure Builtins where
  floatOfStr : String → Option (Option ℚ)
  repr : Json → String

namespace Json

/-- `bool(j)`. -/
def truthy : Json → Bool
  | null => false
  | bool b => b
  | num v => v ≠ some 0
  | str s => s ≠ ""
  | arr xs => !xs.isEmpty
  | obj kvs => !kvs.isEmpty

/-- `str(j)`. -/
def pyStr (bi : Builtins) : Json → String
  | str s => s
  | j => bi.repr j

/-- `float(j)`; the result `none` is `NaN` or an infinity. -/
def pyFloat (bi : Builtins) : Json → Except PyExc (Option ℚ)
  | bool b => .ok (some (if b then 1 else 0))
  | num v => .ok v
  | str s =>
      match bi.floatOfStr s with
      | some v => .ok v
      | none => .error ⟨.valueError, "could not convert string to float"⟩
  | _ => .error ⟨.typeError, "float() argument must be a string or a real number"⟩

theorem benign_pyFloat (bi : Builtins) (j : Json) : Benign (j.pyFloat bi) := by
  unfold pyFloat
  split
  · exact .ok _
  · exact .ok _
  · split
    · exact .ok _
    · exact .error rfl
  · exact .error rfl

/-- `for x in j`: what iterating over the value yields. -/
def iter : Json → Except PyExc (List Json)
  | str s => .ok (s.toList.map (fun c => str (String.ofList [c])))
  | arr xs => .ok xs
  | obj kvs => .ok (kvs.map (fun kv => str kv.1))
  | _ => .error ⟨.typeError, "object is not iterable"⟩

theorem benign_iter (j : Json) : Benign j.iter := by
  unfold iter
  split
  · exact .ok _
  · exact .ok _
  · exact .ok _
  · exact .error rfl

/-- A value used as an object: `.get` on anything else is an `AttributeError`. -/
def asObj : Json → Except PyExc JsonObj
  | obj kvs => .ok kvs
  | _ => .error ⟨.attributeError, "object has no attribute 'get'"⟩

/-- A value used as a dictionary key: lists and objects are unhashable. -/
def hashable : Json → Except PyExc Json
  | arr _ => .error ⟨.typeError, "unhashable type: 'list'"⟩
  | obj _ => .error ⟨.typeError, "unhashable type: 'dict'"⟩
  | j => .ok j

theorem benign_asObj (j : Json) : Benign j.asObj := by
  unfold asObj
  split
  · exact .ok _
  · exact .error rfl

theorem benign_hashable (j : Json) : Benign j.hashable := by
  unfold hashable
  split
  · exact .error rfl
  · exact .error rfl
  · exact .ok _

end Json

namespace JsonObj

/-- `payload.get(key)`. -/
def get? (o : JsonObj) (key : String) : Option Json := o.lookup key

/-- `payload.get(key, default)`. -/
def getD (o : JsonObj) (key : String) (default : Json) : Json := (o.lookup key).getD default

/-- `payload[key]`; the text of a KeyError is the repr of the key. -/
def item (o : JsonObj) (key : String) : Except PyExc Json :=
  match o.lookup key with
  | some j => .ok j
  | none => .error ⟨.keyError, "'" ++ key ++ "'"⟩

theorem benign_item (o : JsonObj) (key : String) : Benign (o.item key) := by
  unfold item
  split
  · exact .ok _
  · exact .error rfl

end JsonObj

/-! ## Text -/

/-- `bool(s)` of a text that may be `None`. -/
def isGiven (s : Option String) : Bool := s.any (fun t => t ≠ "")

/-- `s[:n]`. -/
def strPrefix (n : Nat) (s : String) : String := String.ofList (s.toList.take n)

/-- `str.isspace` on one character. -/
def isSpace (c : Char) : Bool :=
  (9 ≤ c.toNat && c.toNat ≤ 13) || (28 ≤ c.toNat && c.toNat ≤ 32) || (8192 ≤ c.toNat && c.toNat ≤ 8202) ||
    [0x85, 0xA0, 0x1680, 0x2028, 0x2029, 0x202F, 0x205F, 0x3000].contains c.toNat

/-- `s.rstrip()`. -/
def rstrip (s : String) : String := String.ofList (s.toList.reverse.dropWhile isSpace).reverse

/-- `",".join(xs)`. -/
def joinComma (xs : List String) : String := String.intercalate "," xs

/-- `sorted(set(xs))`. -/
def sortedSet (xs : List String) : List String := xs.dedup.insertionSort (· ≤ ·)

theorem mem_sortedSet {xs : List String} {x : String} : x ∈ sortedSet xs ↔ x ∈ xs := by
  rw [sortedSet, List.mem_insertionSort, List.mem_dedup]

theorem nodup_sortedSet (xs : List String) : (sortedSet xs).Nodup :=
  (List.perm_insertionSort (· ≤ ·) xs.dedup).nodup_iff.mpr (List.nodup_dedup xs)

/-- The list is in ascending order. -/
theorem sortedSet_ascends (xs : List String) : (sortedSet xs).Pairwise (· < ·) := by
  have hle : (sortedSet xs).Pairwise (· ≤ ·) := List.pairwise_insertionSort (· ≤ ·) _
  apply (hle.and (nodup_sortedSet xs)).imp
  rintro a b ⟨hab, hne⟩
  exact lt_of_le_of_ne hab hne

end NewsProject
