import ListLang.Trace.Render
import ListLang.Yaml.Writer

/-! Records as items of a YAML sequence. -/

namespace ListLang

def TraceRecord.yaml (id : String) (r : TraceRecord) : String :=
  "- run: " ++ id ++ "\n  expression: " ++ Yaml.scalar r.expression ++
    "\n  value: " ++ Yaml.scalar r.value ++ "\n  type: " ++ r.type.name ++ "\n"

def renderTrace : TraceFormat → String → List TraceRecord → String := renderTraceBy TraceRecord.yaml

end ListLang
