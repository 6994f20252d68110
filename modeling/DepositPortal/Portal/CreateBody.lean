import DepositPortal.Number
import DepositPortal.Portal.Create

/-!
# The body of `POST /requests` (requests/dto/create-request.dto.ts)

| here | there |
| --- | --- |
| `MAX_ITEMS`, `TITLE_MAX_LENGTH`, `LABEL_MAX_LENGTH` | `:14`, `:16`, `:17` |
| `trim`, `trimEach`, `foldCase` | `:22`, `:25`, `:35` |
| `TITLE_RULES`, `ITEMS_RULES`   | the decorators of `title` (`:53`) and `items` (`:64`) |
| `EXPIRES_RULES`                | `IsExpiresInDays` (expires-in-days.decorator.ts:22) |
| `validate`                     | the `ValidationPipe` of app.setup.ts:41 |

The pipe transforms the body first and checks every rule after that, so the rules see trimmed labels and
`validate` hands them on. A refusal names each field and the messages of its rules that fail, in the order
in which the rules were registered: the decorators of a property apply from the last one up, those that
`applyDecorators` is given from the first.
-/
namespace DepositPortal.Portal.CreateBody
open Binary64

def MAX_ITEMS : Nat := 20

def TITLE_MAX_LENGTH : Nat := 200

def LABEL_MAX_LENGTH : Nat := 200

def MAX_EXPIRES_DAYS : Nat := 90

/-- What the packages bring: the length that `MinLength` and `MaxLength` count, and the lower case of the
locale `fr`. -/
structure Validator where
  length : JsString → Nat
  toLocaleLowerCase : JsString → JsString

/-- A JSON value: a string, or something else, up to `===`. -/
inductive Entry where
  | text (s : JsString)
  | other (identity : Nat)
  deriving DecidableEq, Repr

/-- The value of `items`. -/
inductive Items where
  | array (entries : List Entry)
  | single (entry : Entry)
  deriving DecidableEq, Repr

structure Body where
  title : Entry
  items : Items
  /-- `none`: no number. -/
  expiresInDays : Option Double
  /-- The properties that the class does not have. -/
  unknown : List JsString

/-! ## The transformation -/

def trim : Entry → Entry
  | .text s => .text (DepositPortal.trim s)
  | .other identity => .other identity

def trimEach : Items → Items
  | .array entries => .array (entries.map trim)
  | .single entry => .single entry

/-! ## The rules -/

structure Rule (α : Type) where
  message : JsString
  holds : α → Bool

def isString : Entry → Bool
  | .text _ => true
  | .other _ => false

def minLength (v : Validator) (min : Nat) : Entry → Bool
  | .text s => min ≤ v.length s
  | .other _ => false

def maxLength (v : Validator) (max : Nat) : Entry → Bool
  | .text s => v.length s ≤ max
  | .other _ => false

/-- `each: true`; what is no array is checked itself. -/
def each (p : Entry → Bool) : Items → Bool
  | .array entries => entries.all p
  | .single entry => p entry

/-- A rule about arrays, which fails of anything else. -/
def onArray (p : List Entry → Bool) : Items → Bool
  | .array entries => p entries
  | .single _ => false

def foldCase (v : Validator) : Entry → Entry
  | .text s => .text (v.toLocaleLowerCase s)
  | .other identity => .other identity

def TITLE_RULES (v : Validator) : List (Rule Entry) :=
  List.reverse
    [⟨js "L'intitulé de la demande doit être du texte.", isString⟩,
     ⟨js "L'intitulé de la demande est obligatoire.", minLength v 1⟩,
     ⟨js "L'intitulé ne peut pas dépasser " ++ decimal TITLE_MAX_LENGTH ++ js " caractères.",
      maxLength v TITLE_MAX_LENGTH⟩]

def ITEMS_RULES (v : Validator) : List (Rule Items) :=
  List.reverse
    [⟨js "La liste des pièces attendues doit être une liste.", onArray fun _ => true⟩,
     ⟨js "Une demande doit attendre au moins une pièce.", onArray fun entries => 1 ≤ entries.length⟩,
     ⟨js "Une demande ne peut pas attendre plus de " ++ decimal MAX_ITEMS ++ js " pièces.",
      onArray fun entries => entries.length ≤ MAX_ITEMS⟩,
     ⟨js "Deux pièces attendues portent le même libellé.",
      onArray fun entries => (entries.map (foldCase v)).Nodup⟩,
     ⟨js "Le libellé d'une pièce attendue doit être du texte.", each isString⟩,
     ⟨js "Le libellé d'une pièce attendue ne peut pas être vide.", each (minLength v 1)⟩,
     ⟨js "Un libellé ne peut pas dépasser " ++ decimal LABEL_MAX_LENGTH ++ js " caractères.",
      each (maxLength v LABEL_MAX_LENGTH)⟩]

def EXPIRES_RULES : List (Rule (Option Double)) :=
  [⟨js "La durée de validité est un nombre de jours entier.", fun days => days.any isInteger⟩,
    ⟨js "La durée de validité est d'au moins un jour.", fun days => days.any fun d => d.ge (.finite 1)⟩,
    ⟨js "La durée de validité ne peut pas dépasser " ++ decimal MAX_EXPIRES_DAYS ++ js " jours.",
      fun days => days.any fun d => Double.ge (.finite MAX_EXPIRES_DAYS) d⟩]

/-! ## The pipe -/

structure FieldError where
  property : JsString
  messages : List JsString
  deriving DecidableEq, Repr

def broken {α : Type} (rules : List (Rule α)) (value : α) : List JsString :=
  (rules.filter fun rule => !rule.holds value).map Rule.message

/-- The error of a field, if one of its rules fails. -/
def fieldError {α : Type} (property : JsString) (rules : List (Rule α)) (value : α) : List FieldError :=
  if (broken rules value).isEmpty then [] else [⟨property, broken rules value⟩]

def errorsOf (v : Validator) (body : Body) : List FieldError :=
  body.unknown.map (fun property => ⟨property, [js "property " ++ property ++ js " should not exist"]⟩) ++
    fieldError (js "title") (TITLE_RULES v) (trim body.title) ++
    fieldError (js "items") (ITEMS_RULES v) (trimEach body.items) ++
    fieldError (js "expiresInDays") EXPIRES_RULES body.expiresInDays

def Entry.string : Entry → JsString
  | .text s => s
  | .other _ => []

def Items.strings : Items → List JsString
  | .array entries => entries.map Entry.string
  | .single _ => []

/-- With no error every part is there. -/
def dtoOf (body : Body) : CreateRequestDto where
  title := (trim body.title).string
  items := (trimEach body.items).strings
  expiresInDays :=
    match body.expiresInDays with
    | some (.finite q) => q.num
    | _ => 0

def validate (v : Validator) (body : Body) : Except (List FieldError) CreateRequestDto :=
  if (errorsOf v body).isEmpty then .ok (dtoOf body) else .error (errorsOf v body)

/-! ## What is accepted -/

section
variable {v : Validator} {body : Body} {dto : CreateRequestDto}

theorem fieldError_eq_nil {α : Type} {property : JsString} {rules : List (Rule α)} {value : α}
    (h : fieldError property rules value = []) : ∀ rule ∈ rules, rule.holds value = true := by
  intro rule hrule
  unfold fieldError at h
  split at h
  · next hnone =>
    have hnil := List.map_eq_nil_iff.1 (List.isEmpty_iff.1 hnone)
    simpa using List.filter_eq_nil_iff.1 hnil rule hrule
  · cases h

theorem errorsOf_eq_nil (h : validate v body = .ok dto) : errorsOf v body = [] ∧ dto = dtoOf body := by
  unfold validate at h
  split at h
  · next hnone => cases h; exact ⟨List.isEmpty_iff.1 hnone, rfl⟩
  · cases h

theorem items_holds (h : validate v body = .ok dto) :
    ∀ rule ∈ ITEMS_RULES v, rule.holds (trimEach body.items) = true := by
  obtain ⟨hnil, -⟩ := errorsOf_eq_nil h
  simp only [errorsOf, List.append_eq_nil_iff] at hnil
  exact fieldError_eq_nil hnil.1.2

theorem isString_trim {entry : Entry} (h : isString (trim entry) = true) : ∃ s, entry = .text s := by
  cases entry with
  | text s => exact ⟨s, rfl⟩
  | other identity => cases h

/-- The labels that are accepted are strings, and what is handed on is each of them trimmed. -/
theorem labels_of_validate (h : validate v body = .ok dto) :
    ∃ labels : List JsString, body.items = .array (labels.map .text) ∧
      dto.items = labels.map DepositPortal.trim := by
  have hrules := items_holds h
  obtain ⟨-, rfl⟩ := errorsOf_eq_nil h
  simp only [ITEMS_RULES, List.mem_reverse, List.forall_mem_cons] at hrules
  obtain ⟨harray, -, -, -, hstrings, -⟩ := hrules
  cases hitems : body.items with
  | single entry => rw [hitems] at harray; cases harray
  | array entries =>
    rw [hitems, trimEach] at hstrings
    have hall : ∀ entry ∈ entries, ∃ s, entry = .text s := by
      intro entry hentry
      refine isString_trim ?_
      exact List.all_eq_true.1 hstrings (trim entry) (List.mem_map_of_mem hentry)
    refine ⟨entries.map Entry.string, ?_, ?_⟩
    · have hid : (entries.map Entry.string).map Entry.text = entries := by
        rw [List.map_map]
        refine (List.map_congr_left fun entry hentry => ?_).trans (List.map_id _)
        obtain ⟨s, rfl⟩ := hall entry hentry
        rfl
      rw [hid]
    · rw [dtoOf, hitems, trimEach, Items.strings, List.map_map, List.map_map]
      refine List.map_congr_left fun entry hentry => ?_
      obtain ⟨s, rfl⟩ := hall entry hentry
      rfl

end

end DepositPortal.Portal.CreateBody
