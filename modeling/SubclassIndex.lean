import SubclassIndex.Text.CodePoint
import SubclassIndex.Text.Basic
import SubclassIndex.Text.Blank
import SubclassIndex.Text.Lines
import SubclassIndex.Text.Utf8
import SubclassIndex.Text.Surrogates
import SubclassIndex.Text.ModifiedUtf8
import SubclassIndex.Table
import SubclassIndex.NameSet
import SubclassIndex.ClassName
import SubclassIndex.ClassFile.Header
import SubclassIndex.ClassFile.Constant
import SubclassIndex.ClassFile.Cursor
import SubclassIndex.ClassFile.Reader
import SubclassIndex.ClassFile.Writer
import SubclassIndex.Text.DecimalDigit
import SubclassIndex.Text.Integer
import SubclassIndex.Properties.Line
import SubclassIndex.Properties.Reader
import SubclassIndex.Properties.Writer
import SubclassIndex.Index.Embedded
import SubclassIndex.Hierarchy.HeaderStore
import SubclassIndex.Hierarchy.Descent
import SubclassIndex.Index.Shape
import SubclassIndex.Index.Render
import SubclassIndex.Index.Listing
import SubclassIndex.Disk.Name
import SubclassIndex.Disk.Path
import SubclassIndex.Disk.Basic
import SubclassIndex.Disk.Write
import SubclassIndex.Text.Printable
import SubclassIndex.Text.Quoted
import SubclassIndex.Zip.Library
import SubclassIndex.Zip.Bits
import SubclassIndex.Zip.PrefixCode
import SubclassIndex.Zip.Inflate
import SubclassIndex.Zip.Checksum
import SubclassIndex.Zip.CodePage
import SubclassIndex.Zip.EndRecord
import SubclassIndex.Zip.Directory
import SubclassIndex.Zip.Archive
import SubclassIndex.Source.Failure
import SubclassIndex.Source.ClassDirectory
import SubclassIndex.Source.Dependency
import SubclassIndex.Text.Base64
import SubclassIndex.Text.AsciiJson
import SubclassIndex.Decimal.Digits
import SubclassIndex.Decimal.Binary64
import SubclassIndex.Decimal.Shortest
import SubclassIndex.Decimal.Written
import SubclassIndex.Decimal.Read
import SubclassIndex.Document.Calendar
import SubclassIndex.Document.Value
import SubclassIndex.Document.Graph
import SubclassIndex.Document.Display
import SubclassIndex.Yaml.Fault
import SubclassIndex.Yaml.Input
import SubclassIndex.Yaml.Token
import SubclassIndex.Yaml.PlainScalar
import SubclassIndex.Yaml.QuotedScalar
import SubclassIndex.Yaml.BlockScalar
import SubclassIndex.Yaml.Property
import SubclassIndex.Yaml.Layout
import SubclassIndex.Yaml.Timestamp
import SubclassIndex.Yaml.Tag
import SubclassIndex.Yaml.PlainTag
import SubclassIndex.Yaml.Node
import SubclassIndex.Yaml.Structure
import SubclassIndex.Yaml.Number
import SubclassIndex.Yaml.Merge
import SubclassIndex.Yaml.Meaning
import SubclassIndex.Yaml.Read
import SubclassIndex.Settings.Basic
import SubclassIndex.Settings.Check
import SubclassIndex.Settings.Load
import SubclassIndex.Build.Context
import SubclassIndex.Build.Scan
import SubclassIndex.Build.Run
import SubclassIndex.Index.Saved
import SubclassIndex.Cli.Request
import SubclassIndex.Cli.Arguments
import SubclassIndex.Cli.Usage
import SubclassIndex.Cli.Outcome
import SubclassIndex.Cli.Program
import SubclassIndex.Main
import SubclassIndex.Proofs.TableLemmas
import SubclassIndex.Proofs.NameSetLemmas
import SubclassIndex.Proofs.TextLemmas
import SubclassIndex.Proofs.Utf8Lemmas
import SubclassIndex.Proofs.Utf8Exact
import SubclassIndex.Proofs.ModifiedUtf8Lemmas
import SubclassIndex.Proofs.ModifiedUtf8Exact
import SubclassIndex.Proofs.ScalarLemmas
import SubclassIndex.Proofs.PairLemmas
import SubclassIndex.Proofs.ModifiedUtf8RoundTrip
import SubclassIndex.Proofs.ModifiedUtf8Seams
import SubclassIndex.Proofs.Disk.FileLemmas
import SubclassIndex.Proofs.Disk.NameLemmas
import SubclassIndex.Proofs.Disk.Tree
import SubclassIndex.Proofs.Disk.PathLemmas
import SubclassIndex.Proofs.Disk.Replacing
import SubclassIndex.Proofs.ClassNameLemmas
import SubclassIndex.Proofs.Properties.UnescapedLemmas
import SubclassIndex.Proofs.Properties.Format
import SubclassIndex.Proofs.Properties.FormatLines
import SubclassIndex.Proofs.Properties.FormatSigns
import SubclassIndex.Proofs.Properties.FormatReading
import SubclassIndex.Proofs.Properties.WrittenFiles
import SubclassIndex.Proofs.Properties.JoinedTexts
import SubclassIndex.Proofs.Hierarchy.HeaderStoreLemmas
import SubclassIndex.Proofs.Hierarchy.SuppliedHeaders
import SubclassIndex.Proofs.Hierarchy.ChainLemmas
import SubclassIndex.Proofs.Hierarchy.Verdicts
import SubclassIndex.Proofs.Hierarchy.FreshQuestions
import SubclassIndex.Proofs.Hierarchy.SharedVerdicts
import SubclassIndex.Proofs.Hierarchy.RecordedAcceptances
import SubclassIndex.Proofs.Hierarchy.SettledQuestions
import SubclassIndex.Proofs.Hierarchy.Cycles
import SubclassIndex.Proofs.ClassFile.ReaderLemmas
import SubclassIndex.Proofs.ClassFile.Format
import SubclassIndex.Proofs.ClassFile.RoundTrip
import SubclassIndex.Proofs.ClassFile.Truncation
import SubclassIndex.Proofs.ClassFile.ReadingCases
import SubclassIndex.Proofs.ClassFile.AcceptedFiles
import SubclassIndex.Proofs.Index.EmbeddedLemmas
import SubclassIndex.Proofs.Properties.EscapeLemmas
import SubclassIndex.Proofs.Index.RoundTrip
import SubclassIndex.Proofs.Index.BothReaders
import SubclassIndex.Proofs.Index.ReadersAgree
import SubclassIndex.Proofs.Index.GatheredTexts
import SubclassIndex.Proofs.Index.LosslessRender
import SubclassIndex.Proofs.Source.HarvestLemmas
import SubclassIndex.Proofs.Source.ClassDirectoryLemmas
import SubclassIndex.Proofs.Settings.AcceptedSettings
import SubclassIndex.Proofs.Build.ScanLemmas
import SubclassIndex.Proofs.Build.ReadableSources
import SubclassIndex.Proofs.Build.Collected
import SubclassIndex.Proofs.Build.SmallDisk
import SubclassIndex.Proofs.Build.SkippedArchives
import SubclassIndex.Proofs.Build.Rows
import SubclassIndex.Proofs.Build.ConcreteRows
import SubclassIndex.Proofs.Build.QueriedBack
import SubclassIndex.Proofs.Build.ReportedRows
import SubclassIndex.Proofs.Build.ServedArchives
import SubclassIndex.Proofs.Build.TrustedIndices
import SubclassIndex.Proofs.Build.ContainedFailures
import SubclassIndex.Proofs.Build.AtomicWrite
import SubclassIndex.Proofs.Build.EncodableRows
import SubclassIndex.Proofs.Build.SecondRun
import SubclassIndex.Proofs.Build.OutputPlace
import SubclassIndex.Proofs.Build.CoveredArchives
import SubclassIndex.Proofs.Cli.SafeSkipping
