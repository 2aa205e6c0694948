import Calculator.Main
import Calculator.Proofs.Token.PushBack
import Calculator.Proofs.Token.Course
import Calculator.Proofs.Parser.FirstError
import Calculator.Proofs.Parser.Reach
import Calculator.Proofs.Parser.Succession
import Calculator.Proofs.Parser.Stopping
import Calculator.Proofs.Parser.Termination
import Calculator.Proofs.Table.Views
import Calculator.Proofs.Table.Mnemonics
import Calculator.Proofs.Evaluation.Fault
import Calculator.Proofs.Evaluation.Power
import Calculator.Proofs.Session.History
import Calculator.Proofs.Session.Arrangement
import Calculator.Proofs.Session.Names
import Calculator.Proofs.Session.Interchange
import Calculator.Proofs.Session.RoundTrip
import Calculator.Proofs.Session.Numeral
import Calculator.Proofs.Session.Nesting
import Calculator.Proofs.CommandLine.Agreement
import Calculator.Proofs.CommandLine.Printing
