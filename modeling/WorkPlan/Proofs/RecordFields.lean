import Mathlib.Tactic
import WorkPlan.Proofs.RoundTrip
import WorkPlan.Proofs.Tolerance

/-!
# The fields of the records

For each kind of record, its fields and what stands in for them when they are missing.  The
readers follow these lists, so members under other names are of no account to them, and the
empty object is read as the record of all defaults where every field has one.
-/

namespace WorkPlan

open Json

variable (d : Dialect)

/-! ## Retry rules -/

namespace Retry

def fields : List Codec.Field :=
  [{ name := "max_attempts", absence := .default (.ofTree (.int 0)) },
    { name := "interval_seconds", absence := .default (.ofTree (.int 15)) },
    { name := "backoff_rate", absence := .default (.ofTree (.float (.ofInt 4))) }]

theorem follows : Codec.Follows (decode? d) fun _ => fields := by
  have hattempts := Codec.readsField_defaulted "max_attempts"
    (Codec.restores_word32 0) (Codec.trims_id Codec.word32?)
  have hinterval := Codec.readsField_defaulted "interval_seconds"
    (Codec.restores_word64 15) (Codec.trims_id Codec.word64?)
  have hfour : (Binary64.ofInt 4).isFinite = true := Binary64.isFinite_ofInt (by decide)
  have hrate := Codec.readsField_defaulted "backoff_rate"
    (Codec.restores_float hfour) (Codec.trims_id Codec.float?)
  refine Codec.Reads.follows ?_ rfl (by decide)
  exact .field hattempts fun _ => .field hinterval fun _ => .field hrate fun _ => .done _

end Retry

namespace Retrier

def fields : List Codec.Field :=
  [{ name := "error_equals" }, { name := "max_attempts" }, { name := "interval_seconds" },
    { name := "backoff_rate" }]

theorem follows : Codec.Follows (decode? d) fun _ => fields := by
  have herrors := Codec.readsField_required "error_equals" (Codec.trims_id Codec.texts?)
  have hattempts := Codec.readsField_required "max_attempts" (Codec.trims_id Codec.word32?)
  have hinterval := Codec.readsField_required "interval_seconds" (Codec.trims_id Codec.word64?)
  have hrate := Codec.readsField_required "backoff_rate" (Codec.trims_id Codec.float?)
  refine Codec.Reads.follows ?_ rfl (by decide)
  exact .field herrors fun _ => .field hattempts fun _ => .field hinterval fun _ =>
    .field hrate fun _ => .done _

end Retrier

/-! ## Deployment data and manifests -/

namespace Deployment

def fields : List Codec.Field :=
  [{ name := "memory_mb", absence := .null }, { name := "timeout_secs", absence := .null },
    { name := "runtime", absence := .null },
    { name := "environment", absence := .default (.ofTree (.table [])) },
    { name := "permissions", absence := .default (.ofTree (.list [])) },
    { name := "layers", absence := .default (.ofTree (.list [])) }]

theorem follows : Codec.Follows (decode? d) fun _ => fields := by
  have hmemory := Codec.readsField_optional "memory_mb" (Codec.trims_id Codec.word32?)
    fun _ => Iff.rfl
  have htimeout := Codec.readsField_optional "timeout_secs" (Codec.trims_id Codec.word64?)
    fun _ => Iff.rfl
  have hruntime := Codec.readsField_optional "runtime" (Codec.trims_id Codec.text?)
    fun _ => Iff.rfl
  have henvironment := Codec.readsField_defaulted "environment"
    (Codec.restores_dictionary ∅) (Codec.trims_id Codec.dictionary?)
  have hpermissions := Codec.readsField_defaulted "permissions"
    (Codec.restores_texts []) (Codec.trims_id Codec.texts?)
  have hlayers := Codec.readsField_defaulted "layers"
    (Codec.restores_texts []) (Codec.trims_id Codec.texts?)
  refine Codec.Reads.follows ?_ rfl (by decide)
  exact .field hmemory fun _ => .field htimeout fun _ => .field hruntime fun _ =>
    .field henvironment fun _ => .field hpermissions fun _ => .field hlayers fun _ => .done _

end Deployment

namespace Manifest

def fields : List Codec.Field :=
  [{ name := "name" }, { name := "description", absence := .null },
    { name := "depends_on", absence := .default (.ofTree (.list [])) },
    { name := "retry", absence := .null, trim := Codec.trim fun _ => Retry.fields },
    { name := "metadata", absence := .default (.ofTree ({} : Deployment).encode),
      trim := Codec.trim fun _ => Deployment.fields }]

theorem follows : Codec.Follows (decode? d) fun _ => fields := by
  have hname := Codec.readsField_required "name" (Codec.trims_id Codec.text?)
  have hdescription := Codec.readsField_optional "description" (Codec.trims_id Codec.text?)
    fun _ => Iff.rfl
  have hwaits := Codec.readsField_defaulted "depends_on"
    (Codec.restores_texts []) (Codec.trims_id Codec.texts?)
  have hretry := Codec.readsField_optional "retry" (Retry.follows d).trims
    Codec.trim_eq_null_iff
  have hdeployment := Codec.readsField_defaulted "metadata"
    (Deployment.restores d {}) (Deployment.follows d).trims
  refine Codec.Reads.follows ?_ rfl (by decide)
  exact .field hname fun _ => .field hdescription fun _ => .field hwaits fun _ =>
    .field hretry fun _ => .field hdeployment fun _ => .done _

end Manifest

/-! ## Workflow documents -/

namespace Argument

def cases : List (String × List Codec.Field) :=
  [("literal", [{ name := "value" }]), ("step_output", [{ name := "step" }])]

theorem follows : Codec.Follows (decode? d) (Codec.caseFields d "kind" cases) := by
  have hvalue := Codec.readsField_required "value" (Codec.trims_id Value.ofTree?)
  have hstep := Codec.readsField_required "step" (Codec.trims_id Codec.text?)
  have hnodup : ∀ c ∈ cases, ("kind" :: c.2.map Codec.Field.name).Nodup := by decide
  apply Codec.follows_tagged hnodup
  rintro (_ | _ | place) c ⟨⟩ label
  · refine Codec.Reads.follows ?_ rfl (by decide)
    exact .field hvalue fun _ => .done _
  · refine Codec.Reads.follows ?_ rfl (by decide)
    exact .field hstep fun _ => .done _

end Argument

namespace Task

def fields : List Codec.Field :=
  [{ name := "name" }, { name := "target" }, { name := "input_mode" },
    { name := "arguments", absence := .default (.ofTree (.list [])),
      trim := Codec.trimItems (Codec.trim (Codec.caseFields d "kind" Argument.cases)) },
    { name := "retry", absence := .null, trim := Codec.trim fun _ => Retrier.fields },
    { name := "comment", absence := .null }]

theorem follows : Codec.Follows (decode? d) fun _ => fields d := by
  have hname := Codec.readsField_required "name" (Codec.trims_id Codec.text?)
  have htarget := Codec.readsField_required "target" (Codec.trims_id Codec.text?)
  have hmode := Codec.readsField_required "input_mode" (Codec.trims_id (InputMode.decode? d))
  have hnone : Codec.Restores (Codec.list? (Argument.decode? d)) (.list []) [] :=
    ⟨.array [], rfl, rfl⟩
  have harguments := Codec.readsField_defaulted "arguments" hnone (Argument.follows d).trims.items
  have hretry := Codec.readsField_optional "retry" (Retrier.follows d).trims
    Codec.trim_eq_null_iff
  have hcomment := Codec.readsField_optional "comment" (Codec.trims_id Codec.text?)
    fun _ => Iff.rfl
  refine Codec.Reads.follows ?_ rfl (by decide)
  exact .field hname fun _ => .field htarget fun _ => .field hmode fun _ =>
    .field harguments fun _ => .field hretry fun _ => .field hcomment fun _ => .done _

end Task

namespace Stage

def cases : List (String × List Codec.Field) :=
  [("task", Task.fields d.inside),
    ("parallel",
      [{ name := "name" },
        { name := "branches",
          trim := Codec.trimItems (Codec.trim fun _ => Task.fields d.inside) }])]

theorem follows : Codec.Follows (decode? d) (Codec.caseFields d "type" (cases d)) := by
  have hname := Codec.readsField_required "name" (Codec.trims_id Codec.text?)
  have hbranches := Codec.readsField_required "branches" (Task.follows d.inside).trims.items
  have hnodup : ∀ c ∈ cases d, ("type" :: c.2.map Codec.Field.name).Nodup := by
    simp [cases, Task.fields]
  apply Codec.follows_tagged hnodup
  rintro (_ | _ | place) c ⟨⟩ label
  · exact (Task.follows d.inside).bind fun t => some (Stage.task t)
  · refine Codec.Reads.follows ?_ rfl (by decide)
    exact .field hname fun _ => .field hbranches fun _ => .done _

end Stage

namespace Workflow

def fields : List Codec.Field :=
  [{ name := "name" }, { name := "comment", absence := .null },
    { name := "stages",
      trim := Codec.trimItems (Codec.trim (Codec.caseFields d "type" (Stage.cases d))) }]

theorem follows : Codec.Follows (decode? d) fun _ => fields d := by
  have hname := Codec.readsField_required "name" (Codec.trims_id Codec.text?)
  have hcomment := Codec.readsField_optional "comment" (Codec.trims_id Codec.text?)
    fun _ => Iff.rfl
  have hstages := Codec.readsField_required "stages" (Stage.follows d).trims.items
  refine Codec.Reads.follows ?_ rfl (by decide)
  exact .field hname fun _ => .field hcomment fun _ => .field hstages fun _ => .done _

end Workflow

/-! ## Settings -/

namespace CompileSettings

def fields : List Codec.Field :=
  [{ name := "task_resource",
      absence := .default (.ofTree (.text "arn:aws:states:::lambda:invoke")) },
    { name := "retry_error_equals",
      absence := .default (.ofTree (.list [.text "States.TaskFailed"])) },
    { name := "comment", absence := .null }]

theorem follows : Codec.Follows (decode? d) fun _ => fields := by
  have hresource := Codec.readsField_defaulted "task_resource"
    (Codec.restores_text ({} : CompileSettings).taskResource) (Codec.trims_id Codec.text?)
  have herrors := Codec.readsField_defaulted "retry_error_equals"
    (Codec.restores_texts ({} : CompileSettings).retryErrorEquals) (Codec.trims_id Codec.texts?)
  have hcomment := Codec.readsField_optional "comment" (Codec.trims_id Codec.text?)
    fun _ => Iff.rfl
  refine Codec.Reads.follows ?_ rfl (by decide)
  exact .field hresource fun _ => .field herrors fun _ => .field hcomment fun _ => .done _

end CompileSettings

namespace LogSettings

def fields : List Codec.Field :=
  [{ name := "filter", absence := .default (.ofTree (.text "info")) },
    { name := "json", absence := .default (.ofTree (.bool false)) },
    { name := "otel", absence := .default (.ofTree (.bool false)) }]

theorem follows : Codec.Follows (decode? d) fun _ => fields := by
  have hfilter := Codec.readsField_defaulted "filter"
    (Codec.restores_text ({} : LogSettings).filter) (Codec.trims_id Codec.text?)
  have hlines := Codec.readsField_defaulted "json"
    (Codec.restores_flag false) (Codec.trims_id Codec.flag?)
  have hspans := Codec.readsField_defaulted "otel"
    (Codec.restores_flag false) (Codec.trims_id Codec.flag?)
  refine Codec.Reads.follows ?_ rfl (by decide)
  exact .field hfilter fun _ => .field hlines fun _ => .field hspans fun _ => .done _

end LogSettings

namespace Settings

/-- The fields of settings, with what stands in for a section that is missing. -/
def fieldsWith (compile log : Tree) : List Codec.Field :=
  [{ name := "compiler", absence := .default (.ofTree compile),
      trim := Codec.trim fun _ => CompileSettings.fields },
    { name := "tracing", absence := .default (.ofTree log),
      trim := Codec.trim fun _ => LogSettings.fields }]

def fields : List Codec.Field :=
  fieldsWith ({} : CompileSettings).encode ({} : LogSettings).encode

/-- What stands in for a section may be anything that is read as the default. -/
theorem followsWith
    {compile log : Tree} (hcompile : Codec.Restores (CompileSettings.decode? d) compile {})
    (hlog : Codec.Restores (LogSettings.decode? d) log {}) :
    Codec.Follows (decode? d) fun _ => fieldsWith compile log := by
  have hcompiler := Codec.readsField_defaulted "compiler" hcompile (CompileSettings.follows d).trims
  have htracing := Codec.readsField_defaulted "tracing" hlog (LogSettings.follows d).trims
  refine Codec.Reads.follows ?_ rfl (by decide)
  exact .field hcompiler fun _ => .field htracing fun _ => .done _

theorem follows : Codec.Follows (decode? d) fun _ => fields :=
  followsWith d (CompileSettings.restores d {}) (LogSettings.restores d {})

theorem empty_section
    {members : Members Value} {name : String} (hname : name ∈ fieldNames)
    (hmissing : members.get? name = none) :
    decode? d (Value.object (members.insert name (.object []))).toTree =
      decode? d (Value.object members).toTree := by
  have hcompile : Codec.Restores (CompileSettings.decode? d) (.table []) {} :=
    ⟨.object [], rfl, rfl⟩
  have hlog : Codec.Restores (LogSettings.decode? d) (.table []) {} := ⟨.object [], rfl, rfl⟩
  have htolerant := (followsWith d hcompile hlog).tolerant
  have hsections : name = "compiler" ∨ name = "tracing" := by
    simpa [fieldNames] using hname
  rcases hsections with rfl | rfl
  · exact htolerant.fills members _ List.mem_cons_self hmissing _ rfl
  · exact htolerant.fills members _ (List.mem_cons_of_mem _ List.mem_cons_self) hmissing _ rfl

end Settings

/-! ## All records -/

/-- Whatever the source of an object, the reader of a record makes use of its fields only, and
a missing field is read as what stands in for it.  A section of the settings that is missing
is read as an empty one, and where every field has a default the empty object is read as the
record of all defaults. -/
theorem records_tolerant :
    Codec.Tolerant (Retry.decode? d) (fun _ => Retry.fields) ∧
      Codec.Tolerant (Deployment.decode? d) (fun _ => Deployment.fields) ∧
      Codec.Tolerant (Manifest.decode? d) (fun _ => Manifest.fields) ∧
      Codec.Tolerant (Retrier.decode? d) (fun _ => Retrier.fields) ∧
      Codec.Tolerant (Argument.decode? d) (Codec.caseFields d "kind" Argument.cases) ∧
      Codec.Tolerant (Task.decode? d) (fun _ => Task.fields d) ∧
      Codec.Tolerant (Stage.decode? d) (Codec.caseFields d "type" (Stage.cases d)) ∧
      Codec.Tolerant (Workflow.decode? d) (fun _ => Workflow.fields d) ∧
      Codec.Tolerant (CompileSettings.decode? d) (fun _ => CompileSettings.fields) ∧
      Codec.Tolerant (LogSettings.decode? d) (fun _ => LogSettings.fields) ∧
      Codec.Tolerant (Settings.decode? d) (fun _ => Settings.fields) ∧
      (∀ members : Members Value, ∀ name ∈ Settings.fieldNames, members.get? name = none →
        Settings.decode? d (Value.object (members.insert name (.object []))).toTree =
          Settings.decode? d (Value.object members).toTree) ∧
      Retry.decode? d (Value.object []).toTree = some {} ∧
      Deployment.decode? d (Value.object []).toTree = some {} ∧
      CompileSettings.decode? d (Value.object []).toTree = some {} ∧
      LogSettings.decode? d (Value.object []).toTree = some {} ∧
      Settings.decode? d (Value.object []).toTree = some {} :=
  ⟨(Retry.follows d).tolerant, (Deployment.follows d).tolerant, (Manifest.follows d).tolerant,
    (Retrier.follows d).tolerant, (Argument.follows d).tolerant, (Task.follows d).tolerant,
    (Stage.follows d).tolerant, (Workflow.follows d).tolerant,
    (CompileSettings.follows d).tolerant, (LogSettings.follows d).tolerant,
    (Settings.follows d).tolerant, fun _ _ hname => Settings.empty_section d hname,
    rfl, rfl, rfl, rfl, rfl⟩

/-- A member that nobody reads is trimmed off wherever it stands. -/
example :
    Codec.trim (fun _ => Manifest.fields)
        (.object [("name", .string "load"), ("owner", .null),
          ("retry", .object [("jitter", .bool true), ("max_attempts", .null)])]) =
      .object [("name", .string "load"), ("retry", .object [("max_attempts", .null)])] := by
  rfl

end WorkPlan
