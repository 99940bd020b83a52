import ExamAdmission.Config.Report
import ExamAdmission.Course.Files
import ExamAdmission.Logging
import ExamAdmission.Proofs.Config.NormalForm
import ExamAdmission.Proofs.Config.Reports
import ExamAdmission.Proofs.Course.Records
import ExamAdmission.Proofs.Engine.Construction
import ExamAdmission.Proofs.Engine.FullMarks
import ExamAdmission.Proofs.Engine.ListingOrder
import ExamAdmission.Proofs.Engine.Monotone
import ExamAdmission.Proofs.Engine.Owners
import ExamAdmission.Proofs.Engine.Warnings
import ExamAdmission.Proofs.Rounding.Enclosure
import ExamAdmission.Proofs.Rounding.PrintedDecimals
import ExamAdmission.Proofs.Rounding.Twice
import ExamAdmission.Proofs.Rule.Divisions
import ExamAdmission.Proofs.Rule.ExactQuota
import ExamAdmission.Proofs.Rule.OverallChecks
import ExamAdmission.Proofs.Rule.QuotaPercent
import ExamAdmission.Proofs.Rule.RepeatedIds
import ExamAdmission.Proofs.Rule.SingleAssignment
import ExamAdmission.Proofs.Rule.Stricter
import ExamAdmission.Proofs.Rule.WholePoints
import ExamAdmission.Proofs.Session
