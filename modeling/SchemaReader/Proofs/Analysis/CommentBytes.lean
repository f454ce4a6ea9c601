/-
Files with comments that are no text.

* `Source.draft?_congr`: extraction sees a text only without its comments;
* `EndsInText.stripComments_comment`: behind a text that ends in the text proper, a line comment
  might as well not be there;
* `analyzeFile_of_commentBytes`: so a line comment of any bytes, valid or not, changes nothing in
  the tables and relations of a file.
-/
import SchemaReader.Analysis
import SchemaReader.Proofs.Lexical.Stripping
import SchemaReader.Proofs.Text.Decoding

namespace SchemaReader

open Text (bytes lineFeedByte)

variable {dialect : Dialect} {source : Source} {sign : Char} {text text' u v y : List Char}

/-! ### Comments in texts -/

/-- What a text defines depends on it without its comments alone. -/
lemma Source.draft?_congr
    (h : stripComments source.dialect text = stripComments source.dialect text') :
    source.draft? text = source.draft? text' := by
  cases source with
  | prisma => exact congrArg (some ∘ ModelFile.Contents.draft ∘ .ofStripped) h
  | drizzle => exact congrArg (some ∘ TableModule.Contents.draft ∘ .ofStripped) h
  | sql => exact congrArg (some ∘ Ddl.Script.draft ∘ .ofStripped) h
  | unknown => rfl

/-- A line feed outside of literals and comments stays. -/
lemma stripComments_lineFeed (h : dialect.Ordinary sign) (v : List Char) :
    stripComments dialect ('\n' :: v) = '\n' :: stripComments dialect v := by
  have hline : CommentMode.line.output dialect ([] ++ '\n' :: v)
      = '\n' :: stripComments dialect v :=
    output_of_line h (by simp) v
  rw [← hline, stripComments_eq_output]
  rfl

/-- A line comment behind a text that ends in the text proper leaves nothing. -/
theorem EndsInText.stripComments_comment (hu : EndsInText dialect u) (h : dialect.Ordinary sign)
    (hy : '\n' ∉ y) (v : List Char) :
    stripComments dialect (u ++ (dialect.lineComment ++ (y ++ '\n' :: v)))
      = stripComments dialect (u ++ '\n' :: v) := by
  rw [hu.stripComments_append h, stripComments_line h hy, hu.stripComments_append h,
    stripComments_lineFeed h]

/-! ### Comments in files -/

lemma ofText_congr {rawPath rawPath' : String} (h : source.draft? text = source.draft? text') :
    (Schema.ofText source text rawPath).tables = (Schema.ofText source text' rawPath').tables ∧
      (Schema.ofText source text rawPath).relations
        = (Schema.ofText source text' rawPath').relations := by
  rw [Schema.ofText, Schema.ofText, Schema.ofTextNoted, Schema.ofTextNoted, h]
  cases source.draft? text' with
  | none => exact ⟨rfl, rfl⟩
  | some draft => exact ⟨rfl, rfl⟩

/-- The schema of a file is that of the text which its bytes are read as. -/
lemma exists_analyzeFile {tree : FileTree} {path : List Char} {content : List UInt8}
    (source : Source) (hread : tree.read path = .ok content) :
    ∃ notices, analyzeFile tree path source
      = .ok (Schema.ofText source (Text.decodeLossy content).1 (String.ofList path), notices) := by
  rw [analyzeFile, hread]
  exact ⟨_, rfl⟩

/-- **Bytes in a comment hide nothing.**  Behind a text that ends outside of literals and comments,
and not with a character at which a comment may begin, a line comment of any bytes but a line feed
leaves the tables and relations of a file what they are without it, whatever follows the line. -/
theorem analyzeFile_of_commentBytes (source : Source) (hu : EndsInText source.dialect u)
    {junk : List UInt8} (hjunk : lineFeedByte ∉ junk) (v : List Char) {tree tree' : FileTree}
    {path path' : List Char}
    (hread : tree.read path = .ok
      (bytes u ++ bytes source.dialect.lineComment ++ junk ++ [lineFeedByte] ++ bytes v))
    (hread' : tree'.read path' = .ok (bytes u ++ [lineFeedByte] ++ bytes v)) :
    ∃ schema notices schema' notices',
      analyzeFile tree path source = .ok (schema, notices) ∧
        analyzeFile tree' path' source = .ok (schema', notices') ∧
        schema.tables = schema'.tables ∧ schema.relations = schema'.relations := by
  obtain ⟨sign, h⟩ := source.ordinary_dialect
  obtain ⟨line, hline, hdecoded⟩ :=
    Text.exists_decodeLossy_line (u ++ source.dialect.lineComment) hjunk v
  rw [Text.bytes_append, List.append_assoc u] at hdecoded
  have hdecoded' : (Text.decodeLossy (bytes u ++ [lineFeedByte] ++ bytes v)).1
      = u ++ '\n' :: v := by
    have hbytes : bytes u ++ [lineFeedByte] ++ bytes v = bytes (u ++ '\n' :: v) := by
      rw [Text.bytes_append, List.append_assoc]
      rfl
    rw [hbytes, Text.decodeLossy_bytes]
  have hdraft : source.draft? (u ++ (source.dialect.lineComment ++ (line ++ '\n' :: v)))
      = source.draft? (u ++ '\n' :: v) := Source.draft?_congr (hu.stripComments_comment h hline v)
  obtain ⟨notices, hschema⟩ := exists_analyzeFile source hread
  obtain ⟨notices', hschema'⟩ := exists_analyzeFile source hread'
  rw [hdecoded] at hschema
  rw [hdecoded'] at hschema'
  exact ⟨_, notices, _, notices', hschema, hschema', ofText_congr hdraft⟩

/-- A script with the beginning of a table, and what stands on the next line. -/
def sampleFront : List Char := "CREATE TABLE t (\n  id INT, ".toList

/-- The bytes of a comment: a letter in another encoding, a quote, and a character broken off. -/
def sampleJunk : List UInt8 := [0x63, 0x6C, 0xE9, 0x27, 0xE2, 0x82]

/-- A directory with two files, with the comment and without it. -/
def sampleScripts : FileTree := ⟨.directory
  [("a.sql".toList, .file (bytes sampleFront ++ bytes Source.sql.dialect.lineComment ++ sampleJunk
      ++ [lineFeedByte] ++ bytes "  name TEXT);".toList)),
    ("b.sql".toList, .file (bytes sampleFront ++ [lineFeedByte] ++ bytes "  name TEXT);".toList))],
      []⟩

theorem analyzeFile_of_commentBytes_sampleScripts :
    EndsInText Source.sql.dialect sampleFront ∧ lineFeedByte ∉ sampleJunk ∧
      (Schema.ofText .sql (sampleFront ++ '\n' :: "  name TEXT);".toList) "b.sql").tables
        = [⟨"t", [⟨"id", "INT", true, false, none⟩, ⟨"name", "TEXT", true, false, none⟩], []⟩] ∧
      ∃ schema notices schema' notices',
        analyzeFile sampleScripts "a.sql".toList .sql = .ok (schema, notices) ∧
          analyzeFile sampleScripts "b.sql".toList .sql = .ok (schema', notices') ∧
          schema.tables = schema'.tables ∧ schema.relations = schema'.relations := by
  have hfront : EndsInText Source.sql.dialect sampleFront := ⟨by decide, by decide⟩
  have hjunk : lineFeedByte ∉ sampleJunk := by decide
  exact ⟨hfront, hjunk, by decide +kernel,
    analyzeFile_of_commentBytes .sql hfront hjunk "  name TEXT);".toList rfl rfl⟩

end SchemaReader
