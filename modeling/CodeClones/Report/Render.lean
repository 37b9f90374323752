import CodeClones.Report.Csv
import CodeClones.Report.Json
import CodeClones.Report.PlainText
import CodeClones.Report.Xml

/-! Reports in all formats. -/

namespace CodeClones.Report

def render (r : Report) : Format → String
  | .text => PlainText.render r
  | .json => Json.render r
  | .csv => Csv.render r
  | .xml => Xml.render r

end CodeClones.Report
