import JavaOutline.Text.CharSet
import JavaOutline.Text.Blank
import JavaOutline.Text.Letter
import JavaOutline.Text.Printable
import JavaOutline.Text.Quoted
import JavaOutline.Text.Words
import JavaOutline.Text.Integer
import JavaOutline.Keyword
import JavaOutline.Source.Piece
import JavaOutline.Token.Basic
import JavaOutline.Token.Line
import JavaOutline.Statement.Part
import JavaOutline.Doc.Basic
import JavaOutline.Declaration.Basic
import JavaOutline.Report
import JavaOutline.Doc.Comment
import JavaOutline.Statement.Constant
import JavaOutline.Statement.Field
import JavaOutline.Statement.Method
import JavaOutline.Declaration.Draft
import JavaOutline.Statement.Header
import JavaOutline.Walk.Cursor
import JavaOutline.Walk.State
import JavaOutline.Walk.Step
import JavaOutline.Number.Binary64
import JavaOutline.Number.Shortest
import JavaOutline.Number.Arithmetic
import JavaOutline.Json
import JavaOutline.Record.Checked
import JavaOutline.Record.Integer
import JavaOutline.Record.Doc
import JavaOutline.Record.Declaration
import JavaOutline.Error
import JavaOutline.File.Path
import JavaOutline.File.Tree
import JavaOutline.File.Charset
import JavaOutline.File.Read
import JavaOutline.Settings.Basic
import JavaOutline.Outline
import JavaOutline.Yaml.Position
import JavaOutline.Yaml.Scalar
import JavaOutline.Yaml.Token
import JavaOutline.Yaml.Tag
import JavaOutline.Yaml.Graph
import JavaOutline.Yaml.Node
import JavaOutline.Yaml.Time
import JavaOutline.Yaml.Numeral
import JavaOutline.Yaml.Atom
import JavaOutline.Yaml.Document
import JavaOutline.Yaml.Load
import JavaOutline.Settings.Load
import JavaOutline.Proofs.LineNumber
import JavaOutline.Proofs.Reader
import JavaOutline.Proofs.Body
import JavaOutline.Proofs.WalkFrame
import JavaOutline.Proofs.Moves
import JavaOutline.Proofs.Contexts
import JavaOutline.Proofs.HiddenLines
import JavaOutline.Proofs.HiddenBodies
import JavaOutline.Proofs.Emission
import JavaOutline.Proofs.CommentSpans
import JavaOutline.Proofs.CommentAgreement
import JavaOutline.Proofs.Layout
import JavaOutline.Proofs.Standing
import JavaOutline.Proofs.TypeSource
import JavaOutline.Proofs.WrittenParts
import JavaOutline.Proofs.Recovery
import JavaOutline.Proofs.EnumConstants
import JavaOutline.Proofs.Conservation
import JavaOutline.Proofs.Signatures
import JavaOutline.Proofs.Literals
import JavaOutline.Proofs.LiteralContents
import JavaOutline.Proofs.Growth
import JavaOutline.Proofs.LaterTypes
import JavaOutline.Proofs.Totality
import JavaOutline.Proofs.StepEffect
import JavaOutline.Proofs.Positions
import JavaOutline.Proofs.DocEffect
import JavaOutline.Proofs.CommentText
import JavaOutline.Proofs.DocSections
import JavaOutline.Proofs.DocumentedMethod
import JavaOutline.Proofs.InStatement
import JavaOutline.Proofs.DraftCongruence
import JavaOutline.Proofs.Independence
import JavaOutline.Proofs.HeaderOnce
import JavaOutline.Proofs.Initializers
import JavaOutline.Proofs.TrailingComments
import JavaOutline.Proofs.MethodModifiers
import JavaOutline.Proofs.RecordRoundTrip
import JavaOutline.Proofs.CarriageReturns
import JavaOutline.Proofs.CodelessSources
import JavaOutline.Proofs.SettledFields
import JavaOutline.Proofs.LineEndings
import JavaOutline.Proofs.Nesting
import JavaOutline.Proofs.Asides
import JavaOutline.Proofs.TypeArguments
import JavaOutline.Proofs.InlineTags
import JavaOutline.Proofs.SectionTexts
import JavaOutline.Proofs.ConstantNumbers
import JavaOutline.Proofs.QuotedLines
import JavaOutline.Proofs.Refusals
import JavaOutline.Proofs.HeaderClauses
import JavaOutline.Proofs.WordGroups
import JavaOutline.Proofs.ExtraKeywords
import JavaOutline.Proofs.SettingsFaults
import JavaOutline.Proofs.BlockStatements
import JavaOutline.Proofs.FileBodies
