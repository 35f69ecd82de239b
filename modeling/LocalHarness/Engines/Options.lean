import LocalHarness.Library.Dict
import LocalHarness.Library.Fallible
import LocalHarness.Library.Text

/-! # The options of a candidate spec -/

namespace LocalHarness.Engines

open LocalHarness.Library

def GRAMMAR : String :=
  "engine:model[,key=value,...]  (engines: mflux, h3, diffusers, diffusers-video, acestep, nimble, " ++
    "decider, osocr, hf-ocr, bm25, rerank, embed, pii-regex, hf-pii)"

def spec_error (spec : String) : String :=
  "bad engine spec " ++ Text.quoted spec ++ "; expected " ++ GRAMMAR

/-- The engines a candidate can name, in order. -/
def engine_names : List String :=
  ["acestep", "bm25", "decider", "diffusers", "diffusers-video", "embed", "h3", "hf-ocr", "hf-pii",
    "mflux", "nimble", "osocr", "pii-regex", "rerank"]

def unknown_engine (engine : String) : String :=
  "unknown engine " ++ Text.quoted engine ++ "; known engines: " ++ ", ".intercalate engine_names ++
    ". Expected " ++ GRAMMAR

def readOption (spec : String) (out : Dict String) (chunk : String) : Except String (Dict String) :=
  match Text.keyValue chunk with
  | none => .error (spec_error spec ++ ": option " ++ Text.quoted chunk ++ " is not key=value")
  | some (key, value) => .ok (out.insert key (Text.strip value))

def parse_options (optstr spec : String) : Except String (Dict String) :=
  (Text.chunks optstr).foldlM (readOption spec) ∅

/-- The option that a chunk states. -/
def statedOf (chunk : String) : Option (String × String) :=
  (Text.keyValue chunk).map fun pair => (pair.1, Text.strip pair.2)

def stated (chunks : List String) : List (String × String) :=
  chunks.filterMap statedOf

/-- A tail is accepted when each of its chunks is an option; of two with one key the later stands. -/
theorem fold_readOption_ok_iff {chunks : List String} {spec : String} {out options : Dict String} :
    chunks.foldlM (readOption spec) out = .ok options ↔
      (∀ chunk ∈ chunks, statedOf chunk ≠ none) ∧
        options = (stated chunks).foldl (fun dict item => dict.insert item.1 item.2) out := by
  induction chunks generalizing out with
  | nil =>
      constructor
      · intro ok
        exact ⟨nofun, pure_ok ok⟩
      · rintro ⟨-, rfl⟩
        rfl
  | cons chunk rest ih =>
      rw [foldlM_cons_ok, List.forall_mem_cons, stated, List.filterMap_cons, ← stated]
      cases found : Text.keyValue chunk with
      | none => simp [readOption, statedOf, found]
      | some pair =>
          have here : statedOf chunk = some (pair.1, Text.strip pair.2) := by rw [statedOf, found]; rfl
          have step : readOption spec out chunk = .ok (out.insert pair.1 (Text.strip pair.2)) := by
            rw [readOption, found]
          simp only [here, step, Except.ok.injEq, exists_eq_left', ih, List.foldl_cons, ne_eq,
            reduceCtorEq, not_false_eq_true, true_and]

theorem parse_options_ok_iff {optstr spec : String} {options : Dict String} :
    parse_options optstr spec = .ok options ↔
      (∀ chunk ∈ Text.chunks optstr, statedOf chunk ≠ none) ∧
        options = Dict.ofItems (stated (Text.chunks optstr)) :=
  fold_readOption_ok_iff

end LocalHarness.Engines
