import ListLang.Trace

/-! The text of a trace: a line for each record, or an item of a YAML sequence for each. How an item
is written is for others to say. -/

namespace ListLang

/-- The text of a record. `item` writes it with the name of the run. -/
def TraceRecord.renderBy (item : String → TraceRecord → String) (format : TraceFormat) (id : String)
    (r : TraceRecord) : String :=
  match format with
  | .text => r.line
  | .yaml => item id r

def renderTraceBy (item : String → TraceRecord → String) (format : TraceFormat) (id : String)
    (records : List TraceRecord) : String :=
  String.join (records.map (TraceRecord.renderBy item format id))

end ListLang
