/-
Replies as JSON texts.

* `Json.ofFields`: the object with the fields that have a value; `Json.field?`
  finds them again;
* `Error.Report`: all that a reply says of one error, and `Error.reports`: of the
  error and its causes, outermost first;
* `Error.Written`, `Reply.Written`: the values that say all of an error with its
  causes, and all of a reply;
* `Reply.toJson_faithful`: the text of a reply reads back as such a value, and
  replies with the same text agree in all of it.
-/
import Listener.Reply
import Listener.Proofs.Error.Chain
import Listener.Proofs.Json.Grammar

namespace Listener

/-! ### Fields -/

namespace Json

/-- The object with the fields that have a value, in order. -/
def ofFields (fields : List (String × Option Json)) : Json :=
  ofMembers (fields.filterMap fun (name, v) => v.map (name, ·))

/-- The value of the first member with a name. -/
def field? (name : String) : Json → Option Json
  | .object members => members.lookup (some name.toList)
  | _ => none

lemma ofString_injective : Function.Injective ofString := by
  intro s t h
  simpa [ofString, String.toList_inj] using h

lemma map_ofString_injective : Function.Injective (Option.map ofString) :=
  Option.map_injective ofString_injective

/-- A member is found under its key, and does not matter for other names. -/
@[simp]
lemma field?_ofMembers_cons (name key : String) (v : Json) (members : List (String × Json)) :
    (ofMembers ((key, v) :: members)).field? name =
      if key = name then some v else (ofMembers members).field? name := by
  by_cases h : key = name
  · simp [ofMembers, field?, h]
  · have hne : (name.toList == key.toList) = false := by
      simpa [String.toList_inj] using Ne.symm h
    simp [ofMembers, field?, List.lookup_cons, h, hne]

@[simp]
lemma field?_ofFields_nil (name : String) : (ofFields []).field? name = none :=
  rfl

/-- A field that has a value is found under its name. -/
@[simp]
lemma field?_ofFields_cons (name key : String) (v : Option Json)
    (fields : List (String × Option Json)) :
    (ofFields ((key, v) :: fields)).field? name =
      if key = name then v.or ((ofFields fields).field? name)
      else (ofFields fields).field? name := by
  cases v with
  | none => simp [ofFields]
  | some v => simp [ofFields]

lemma proper_ofFields {fields : List (String × Option Json)}
    (h : ∀ f ∈ fields, ∀ v ∈ f.2, v.Proper) : (ofFields fields).Proper := by
  refine proper_ofMembers fun m hm => ?_
  obtain ⟨f, hf, hfm⟩ := List.mem_filterMap.mp hm
  obtain ⟨v, hv, rfl⟩ := Option.map_eq_some_iff.mp hfm
  exact h f hf v hv

lemma proper_text (s? : Option String) : ∀ v ∈ s?.map ofString, v.Proper := by
  intro v hv
  obtain ⟨s, -, rfl⟩ := Option.map_eq_some_iff.mp hv
  exact .string s.toList

end Json

/-! ### Errors -/

namespace Error

open Json

/-- What a reply says of one error, its causes apart. The data are printed. -/
@[ext]
structure Report where
  /-- The word for its kind. -/
  kind : String
  code : String
  /-- What went wrong. -/
  message : String
  stack : Option String
  /-- The text of its data. -/
  data : Option String

def report (e : Error) : Report where
  kind := e.kind
  code := "reval::" ++ e.kind
  message := e.message
  stack := e.stack?
  data := e.data?.map Form.print

/-- The reports of an error and of its causes, outermost first. -/
def reports : Error → List Report
  | .eval message (some c) stack data => (eval message (some c) stack data).report :: c.reports
  | e => [e.report]

lemma reports_root {e : Error} (h : e.cause? = none) : e.reports = [e.report] := by
  cases e with
  | eval message cause stack data =>
    cases h
    rfl
  | _ => rfl

lemma reports_caused {e c : Error} (h : e.cause? = some c) :
    e.reports = e.report :: c.reports := by
  cases e with
  | eval message cause stack data =>
    cases h
    rfl
  | _ => cases h

/-- The fields of a report, with the value of the cause if there is one. -/
def Report.fields (r : Report) (cause : Option Json) : List (String × Option Json) :=
  [("kind", some (ofString r.kind)), ("code", some (ofString r.code)),
    ("message", some (ofString r.message)), ("stack", r.stack.map ofString),
    ("data", r.data.map ofString), ("cause", cause)]

/-- The fields give the report and the value of the cause. -/
lemma Report.fields_injective {r r' : Report} {cause cause' : Option Json}
    (h : ofFields (r.fields cause) = ofFields (r'.fields cause')) : r = r' ∧ cause = cause' := by
  have hkind : r.kind = r'.kind :=
    ofString_injective (by simpa [fields] using congrArg (field? "kind") h)
  have hcode : r.code = r'.code :=
    ofString_injective (by simpa [fields] using congrArg (field? "code") h)
  have hmessage : r.message = r'.message :=
    ofString_injective (by simpa [fields] using congrArg (field? "message") h)
  have hstack : r.stack = r'.stack :=
    map_ofString_injective (by simpa [fields] using congrArg (field? "stack") h)
  have hdata : r.data = r'.data :=
    map_ofString_injective (by simpa [fields] using congrArg (field? "data") h)
  have hcause : cause = cause' := by
    simpa [fields] using congrArg (field? "cause") h
  exact ⟨Report.ext hkind hcode hmessage hstack hdata, hcause⟩

/-- A value that says all of an error: its report, and all of its cause. -/
inductive Written : Error → Json → Prop
  /-- An error without a cause has no such field. -/
  | root {e : Error} (h : e.cause? = none) : Written e (ofFields (e.report.fields none))
  /-- The cause is a field of the same shape. -/
  | caused {e c : Error} {v : Json} (h : e.cause? = some c) (hc : Written c v) :
    Written e (ofFields (e.report.fields (some v)))

lemma toJson_eq (e : Error) :
    e.toJson = ofFields (e.report.fields (e.cause?.map toJson)) := by
  cases e with
  | eval message cause stack data => cases cause <;> cases stack <;> cases data <;> rfl
  | _ => rfl

lemma written_toJson (e : Error) : e.Written e.toJson := by
  induction e using cause_induction with
  | root e h =>
    rw [toJson_eq, h]
    exact .root h
  | caused e c h ih =>
    rw [toJson_eq, h]
    exact .caused h ih

lemma Report.proper_fields (r : Report) {cause : Option Json} (h : ∀ v ∈ cause, v.Proper) :
    (ofFields (r.fields cause)).Proper := by
  refine proper_ofFields ?_
  simp only [fields, List.forall_mem_cons]
  exact ⟨proper_text (some r.kind), proper_text (some r.code), proper_text (some r.message),
    proper_text r.stack, proper_text r.data, h, List.forall_mem_nil _⟩

lemma proper_toJson (e : Error) : e.toJson.Proper := by
  induction e using cause_induction with
  | root e h =>
    rw [toJson_eq, h]
    exact Report.proper_fields _ (by simp)
  | caused e c h ih =>
    rw [toJson_eq, h]
    exact Report.proper_fields _ (by simpa using ih)

lemma reports_eq {e e' : Error} (h : e.toJson = e'.toJson) : e.reports = e'.reports := by
  induction e using cause_induction generalizing e' with
  | root e hroot =>
    rw [toJson_eq e, toJson_eq e', hroot] at h
    obtain ⟨hreport, hcause⟩ := Report.fields_injective h
    have hroot' : e'.cause? = none := Option.map_eq_none_iff.mp hcause.symm
    rw [reports_root hroot, reports_root hroot', hreport]
  | caused e c hcaused ih =>
    rw [toJson_eq e, toJson_eq e', hcaused] at h
    obtain ⟨hreport, hcause⟩ := Report.fields_injective h
    obtain ⟨c', hcaused', hsame⟩ := Option.map_eq_some_iff.mp hcause.symm
    rw [reports_caused hcaused, reports_caused hcaused', hreport, ih hsame.symm]

end Error

/-! ### Replies -/

namespace Reply

open Json

/-- The fields of a reply, with the value of the error if there is one. -/
def fields (r : Reply) (error : Option Json) : List (String × Option Json) :=
  [("success", some (.bool r.isSuccess)), ("form", some (ofString r.form.print)),
    ("value", r.value?.map ofString), ("error", error), ("warning", r.warning.map ofString)]

/-- The fields of a reply can be written if the error can. -/
lemma proper_fields (r : Reply) {error : Option Json} (h : ∀ v ∈ error, v.Proper) :
    (ofFields (r.fields error)).Proper := by
  refine proper_ofFields ?_
  simp only [fields, List.forall_mem_cons]
  have hsuccess : ∀ v ∈ some (Json.bool r.isSuccess), v.Proper := by
    simpa using Json.Proper.bool r.isSuccess
  exact ⟨hsuccess, proper_text (some r.form.print), proper_text r.value?, h,
    proper_text r.warning, List.forall_mem_nil _⟩

lemma fields_injective {r r' : Reply} {error error' : Option Json}
    (h : ofFields (r.fields error) = ofFields (r'.fields error')) :
    r.isSuccess = r'.isSuccess ∧ r.form.print = r'.form.print ∧ r.value? = r'.value? ∧
      error = error' ∧ r.warning = r'.warning := by
  have hsuccess : r.isSuccess = r'.isSuccess := by
    simpa [fields] using congrArg (field? "success") h
  have hform : r.form.print = r'.form.print :=
    ofString_injective (by simpa [fields] using congrArg (field? "form") h)
  have hvalue : r.value? = r'.value? :=
    map_ofString_injective (by simpa [fields] using congrArg (field? "value") h)
  have herror : error = error' := by
    simpa [fields] using congrArg (field? "error") h
  have hwarning : r.warning = r'.warning :=
    map_ofString_injective (by simpa [fields] using congrArg (field? "warning") h)
  exact ⟨hsuccess, hform, hvalue, herror, hwarning⟩

/-- A value that says all of a reply: its fields, and all of its error. -/
inductive Written : Reply → Json → Prop
  /-- A reply with a value. -/
  | value {r : Reply} (h : r.error? = none) : Written r (ofFields (r.fields none))
  /-- A reply with an error has the error as a field. -/
  | error {r : Reply} {e : Error} {v : Json} (h : r.error? = some e) (he : e.Written v) :
    Written r (ofFields (r.fields (some v)))

lemma toJson_eq (r : Reply) :
    r.toJson = ofFields (r.fields (r.error?.map Error.toJson)) := by
  obtain ⟨form, warning, outcome⟩ := r
  cases outcome <;> cases warning <;> rfl

lemma written_toJson (r : Reply) : r.Written r.toJson := by
  rw [toJson_eq]
  cases h : r.error? with
  | none => exact .value h
  | some e => exact .error h e.written_toJson

lemma proper_toJson (r : Reply) : r.toJson.Proper := by
  rw [toJson_eq]
  refine proper_fields r fun v hv => ?_
  obtain ⟨e, -, rfl⟩ := Option.map_eq_some_iff.mp hv
  exact e.proper_toJson

/-- What two replies with the same value agree in. -/
structure Agree (r r' : Reply) : Prop where
  /-- Both succeeded, or both failed. -/
  success : r.isSuccess = r'.isSuccess
  /-- Their forms are printed alike. -/
  form : r.form.print = r'.form.print
  /-- They have the same text of a value, or none. -/
  value : r.value? = r'.value?
  /-- They have the same warning, or none. -/
  warning : r.warning = r'.warning
  /-- Their errors and all causes have the same reports. -/
  error : r.error?.map Error.reports = r'.error?.map Error.reports

lemma agree_of_toJson_eq {r r' : Reply} (h : r.toJson = r'.toJson) : r.Agree r' := by
  rw [toJson_eq r, toJson_eq r'] at h
  obtain ⟨hsuccess, hform, hvalue, herror, hwarning⟩ := fields_injective h
  refine ⟨hsuccess, hform, hvalue, hwarning, ?_⟩
  cases he : r.error? with
  | none =>
    rw [he] at herror
    rw [Option.map_eq_none_iff.mp herror.symm]
  | some e =>
    rw [he] at herror
    obtain ⟨e', he', hsame⟩ := Option.map_eq_some_iff.mp herror.symm
    rw [he', Option.map_some, Option.map_some, Error.reports_eq hsame]

lemma parse?_print_toJson (r : Reply) : Json.parse? r.toJson.print.toList = some r.toJson :=
  parse?_print r.proper_toJson

/-- The text of a reply is a JSON text whose value says all of the reply, and
replies with the same text agree. -/
theorem toJson_faithful (r : Reply) :
    (∃ v, Json.parse? r.toJson.print.toList = some v ∧ r.Written v) ∧
      ∀ r' : Reply, r.toJson.print = r'.toJson.print → r.Agree r' := by
  refine ⟨⟨r.toJson, parse?_print_toJson r, r.written_toJson⟩, fun r' hprint => ?_⟩
  refine agree_of_toJson_eq (Option.some.inj ?_)
  rw [← parse?_print_toJson r, ← parse?_print_toJson r', hprint]

/-- A failed evaluation that was caused by a text that does not read. -/
def unread (source : String) (offset : Option Nat) : Reply :=
  ⟨.nil, some "old", .error
    (.eval "no \"code\"" (some (.reader "EOF" source offset)) (some "a\nb\x01") (some .nil))⟩

/-- Where a text does not read is no part of the reply, so two such texts may have
replies with the same text. -/
theorem toJson_faithful_unread :
    (∃ v, Json.parse? (unread "(" (some 1)).toJson.print.toList = some v ∧
      (unread "(" (some 1)).Written v) ∧
    (unread "(" (some 1)).toJson.print = (unread "[" none).toJson.print ∧
      (unread "(" (some 1)).Agree (unread "[" none) :=
  ⟨(toJson_faithful _).1, rfl, (toJson_faithful _).2 _ rfl⟩

example :
    (toJson ⟨.nil, some "old", .error
      (.eval "no \"code\"" (some (.argument "EOF")) "a\n\x01" none)⟩).print =
      "\x7b\"success\":false,\"form\":\"nil\",\"error\":" ++
      "\x7b\"kind\":\"eval\",\"code\":\"reval::eval\",\"message\":\"no \\\"code\\\"\"," ++
      "\"stack\":\"a\\n\\u0001\",\"cause\":" ++
      "\x7b\"kind\":\"argument\",\"code\":\"reval::argument\",\"message\":\"EOF\"\x7d\x7d" ++
      ",\"warning\":\"old\"\x7d" := by
  decide +kernel

end Reply

end Listener
